import Esp32Ipc.Detect.PackModel

/-!
# The table of a pack

A reader that is told nothing but the file, and the file that a list of models is laid out in: the
table says where names and data stand, and reading by it gives the models back.
-/

namespace Esp32Ipc.Detect

open Framework ByteMemory

structure PackEntry where
  dataOffset : Nat
  nameOffset : Nat
  nameLength : Nat
  deriving DecidableEq, Repr

def PackEntry.words (e : PackEntry) : List UInt8 :=
  wordBytes e.dataOffset ++ wordBytes e.nameOffset ++ wordBytes e.nameLength

def PackEntry.Fits (e : PackEntry) : Prop :=
  e.dataOffset < 4294967296 ∧ e.nameOffset < 4294967296 ∧ e.nameLength < 4294967296

def PackEntry.ofBytes (l : List UInt8) : PackEntry := ⟨wordAt l 0,wordAt l 4,wordAt l 8⟩

/-- The table of the layout that `pack_models` documents. -/
def packTable (file : List UInt8) : List PackEntry :=
  (List.range (wordAt file 4)).map fun k => PackEntry.ofBytes (slice file (8 + 12 * k) 12)

/-- The models of a pack, each with the bytes of its name and with what is stored up to the next. -/
def unpack (file : List UInt8) : Option (Format × List (List UInt8 × List UInt8)) :=
  let tag := file.take 4
  let names := (packTable file).map fun e => slice file e.nameOffset e.nameLength
  let offsets := (packTable file).map PackEntry.dataOffset
  let models := names.zip (offsets.zipWith (slice file) (untilNext file.length offsets))
  if tag = tagBytes Format.edl1.packTag then some (.edl1,models)
  else if tag = tagBytes Format.edl2.packTag then some (.edl2,models)
  else none

/-- The table for models whose names and data are laid out from two given offsets. -/
def layout : Nat → Nat → List (Text × List UInt8) → List PackEntry
  | _, _, [] => []
  | nameOffset, dataOffset, m :: ms =>
    ⟨dataOffset,nameOffset,m.1.length⟩ ::
      layout (nameOffset + m.1.length) (dataOffset + m.2.length) ms

def nameSegments (models : List (Text × List UInt8)) : List (List UInt8) :=
  models.map fun m => tagBytes m.1

def dataSegments (models : List (Text × List UInt8)) : List (List UInt8) := models.map Prod.snd

def Ascii (name : Text) : Prop := ∀ c ∈ name, c.toNat ≤ 127

@[simp] theorem tagBytes_length (s : Text) : (tagBytes s).length = s.length := List.length_map _

@[simp] theorem PackEntry.words_length (e : PackEntry) : e.words.length = 12 := rfl

theorem PackEntry.ofBytes_words {e : PackEntry} (h : e.Fits) : PackEntry.ofBytes e.words = e := by
  obtain ⟨hdata,hname,hlength⟩ := h
  have hfirst : wordAt e.words 0 = e.dataOffset :=
    wordAt_append hdata [] (wordBytes e.nameOffset ++ wordBytes e.nameLength)
  have hsecond : wordAt e.words 4 = e.nameOffset :=
    wordAt_append hname (wordBytes e.dataOffset) (wordBytes e.nameLength)
  have hthird : wordAt (e.words ++ []) 8 = e.nameLength :=
    wordAt_append hlength (wordBytes e.dataOffset ++ wordBytes e.nameOffset) []
  rw [List.append_nil] at hthird
  rw [PackEntry.ofBytes,hfirst,hsecond,hthird]

section Layout

variable (nameOffset dataOffset : Nat) (models more : List (Text × List UInt8))

@[simp] theorem layout_length : (layout nameOffset dataOffset models).length = models.length := by
  induction models generalizing nameOffset dataOffset with
  | nil => rfl
  | cons m ms ih => exact congrArg Nat.succ (ih _ _)

theorem layout_append : layout nameOffset dataOffset (models ++ more) =
    layout nameOffset dataOffset models ++
      layout (nameOffset + (nameSegments models).flatten.length)
        (dataOffset + (dataSegments models).flatten.length) more := by
  induction models generalizing nameOffset dataOffset with
  | nil => rfl
  | cons m ms ih =>
    rw [List.cons_append,layout,layout,ih]
    simp only [nameSegments,dataSegments,List.map_cons,List.flatten_cons,List.length_append,
      tagBytes_length,Nat.add_assoc,List.cons_append]

theorem layout_dataOffset : (layout nameOffset dataOffset models).map PackEntry.dataOffset =
    starts dataOffset (dataSegments models) := by
  induction models generalizing nameOffset dataOffset with
  | nil => rfl
  | cons m ms ih =>
    change dataOffset :: _ = dataOffset :: _
    rw [ih]
    rfl

theorem layout_names (f : Nat → Nat → List UInt8) :
    (layout nameOffset dataOffset models).map (fun e => f e.nameOffset e.nameLength) =
      (starts nameOffset (nameSegments models)).zipWith f ((nameSegments models).map List.length) := by
  induction models generalizing nameOffset dataOffset with
  | nil => rfl
  | cons m ms ih =>
    change f nameOffset m.1.length :: _ = f nameOffset (tagBytes m.1).length :: _
    rw [ih,tagBytes_length]
    rfl

end Layout

section Segments

variable {nameOffset dataOffset : Nat} {done : List (Text × List UInt8)} {m : Text × List UInt8}

@[simp] theorem nameSegments_length : (nameSegments done).length = done.length := List.length_map _

@[simp] theorem dataSegments_length : (dataSegments done).length = done.length := List.length_map _

theorem nameSegments_concat : nameSegments (done ++ [m]) = nameSegments done ++ [tagBytes m.1] := by
  simp [nameSegments]

theorem dataSegments_concat : dataSegments (done ++ [m]) = dataSegments done ++ [m.2] := by
  simp [dataSegments]

/-- The entry for the model that comes after `done`. -/
def entryAfter (nameOffset dataOffset : Nat) (done : List (Text × List UInt8)) (name : Text) : PackEntry :=
  ⟨dataOffset + (dataSegments done).flatten.length,nameOffset + (nameSegments done).flatten.length,
    name.length⟩

theorem layout_concat : layout nameOffset dataOffset (done ++ [m]) =
    layout nameOffset dataOffset done ++ [entryAfter nameOffset dataOffset done m.1] :=
  layout_append nameOffset dataOffset done [m]

end Segments

/-- The starts of names and data for the models of a pack. -/
def packLayout (format : Format) (models : List (Text × List UInt8)) : List PackEntry :=
  layout (namesStart models.length)
    (dataStart format (namesStart models.length) (nameSegments models).flatten.length) models

def packPadding (format : Format) (models : List (Text × List UInt8)) : List UInt8 :=
  List.replicate (dataStart format (namesStart models.length) (nameSegments models).flatten.length -
    namesStart models.length - (nameSegments models).flatten.length) 0

def packedFile (format : Format) (models : List (Text × List UInt8)) : List UInt8 :=
  tagBytes format.packTag ++ wordBytes models.length ++
    (packLayout format models).flatMap PackEntry.words ++ (nameSegments models).flatten ++
    packPadding format models ++ (dataSegments models).flatten

theorem le_dataStart (format : Format) (p n : Nat) : p + n ≤ dataStart format p n := by
  cases format with
  | edl1 => exact Nat.le_refl _
  | edl2 =>
    change p + n ≤ (p + n + 15) / 16 * 16
    omega

theorem dataStart_eq (format : Format) (models : List (Text × List UInt8)) :
    namesStart models.length + (nameSegments models).flatten.length + (packPadding format models).length =
      dataStart format (namesStart models.length) (nameSegments models).flatten.length := by
  have hle := le_dataStart format (namesStart models.length) (nameSegments models).flatten.length
  rw [packPadding,List.length_replicate]
  omega

theorem packHead_length (format : Format) (n : Nat) :
    (tagBytes format.packTag ++ wordBytes n).length = 8 := by cases format <;> rfl

theorem packNames_start (format : Format) (models : List (Text × List UInt8)) :
    (tagBytes format.packTag ++ wordBytes models.length ++
      (packLayout format models).flatMap PackEntry.words).length = namesStart models.length := by
  rw [List.length_append,packHead_length,flatMap_length_of_width _ PackEntry.words_length,packLayout,
    layout_length,namesStart]
  omega

theorem packTable_packedFile {format : Format} {models : List (Text × List UInt8)}
    (hnum : models.length < 4294967296) (hfits : ∀ e ∈ packLayout format models, e.Fits) :
    packTable (packedFile format models) = packLayout format models := by
  set rest := (nameSegments models).flatten ++ packPadding format models ++ (dataSegments models).flatten
    with hrest
  have hfile : packedFile format models = tagBytes format.packTag ++ wordBytes models.length ++
      (packLayout format models).flatMap PackEntry.words ++ rest := by
    simp only [packedFile,hrest,List.append_assoc]
  have htag : (tagBytes format.packTag).length = 4 := by cases format <;> rfl
  have hcount : wordAt (packedFile format models) 4 = models.length := by
    have h := wordAt_append hnum (tagBytes format.packTag)
      ((packLayout format models).flatMap PackEntry.words ++ rest)
    rw [htag] at h
    rw [hfile]
    simpa only [List.append_assoc] using h
  have hrecords := map_range_slice_records PackEntry.words PackEntry.words_length
    (tagBytes format.packTag ++ wordBytes models.length) rest (packLayout format models) PackEntry.ofBytes
  have hlength : (packLayout format models).length = models.length := layout_length _ _ _
  rw [packHead_length,hlength] at hrecords
  rw [packTable,hcount,hfile,hrecords]
  calc
    (packLayout format models).map (fun e => PackEntry.ofBytes e.words) = (packLayout format models).map id :=
      List.map_congr_left fun e he => PackEntry.ofBytes_words (hfits e he)
    _ = packLayout format models := List.map_id _

theorem unpack_packedFile {format : Format} {models : List (Text × List UInt8)}
    (hnum : models.length < 4294967296) (hfits : ∀ e ∈ packLayout format models, e.Fits) :
    unpack (packedFile format models) =
      some (format,(nameSegments models).zip (dataSegments models)) := by
  set front := tagBytes format.packTag ++ wordBytes models.length ++
    (packLayout format models).flatMap PackEntry.words with hfront
  set start := dataStart format (namesStart models.length) (nameSegments models).flatten.length
  have hnamesAt : front.length = namesStart models.length := packNames_start format models
  have hdataAt : (front ++ (nameSegments models).flatten ++ packPadding format models).length = start := by
    rw [List.length_append,List.length_append,hnamesAt]
    exact dataStart_eq format models
  have hlength : (packedFile format models).length = start + (dataSegments models).flatten.length := by
    rw [packedFile,List.length_append]
    exact congrArg (· + _) hdataAt
  have hnames : (packLayout format models).map
      (fun e => slice (packedFile format models) e.nameOffset e.nameLength) = nameSegments models := by
    have h := zipWith_slice_starts front (packPadding format models ++ (dataSegments models).flatten)
      (nameSegments models)
    rw [hnamesAt,← List.append_assoc] at h
    rw [packLayout,layout_names]
    exact h
  have hdata : (starts start (dataSegments models)).zipWith (slice (packedFile format models))
      (untilNext (packedFile format models).length (starts start (dataSegments models))) =
      dataSegments models := by
    have h := zipWith_slice_starts (front ++ (nameSegments models).flatten ++ packPadding format models) []
      (dataSegments models)
    rw [hdataAt,List.append_nil] at h
    rw [hlength,untilNext_starts]
    exact h
  have htag : (packedFile format models).take 4 = tagBytes format.packTag := by
    rw [packedFile]
    simp only [List.append_assoc]
    cases format <;> rfl
  rw [unpack,packTable_packedFile hnum hfits,hnames,packLayout,layout_dataOffset,hdata,htag]
  cases format <;> rfl

/-- Where the table has data start, each with how much of it there is. -/
def dataRegions (file : List UInt8) (lengths : List Nat) : List (Nat × Nat) :=
  ((packTable file).map PackEntry.dataOffset).zip lengths

/-- The regions of a pack, in the order in which they stand in the file. The table has the lengths of
the names, those of the models are given. -/
structure PackedRegions (file : List UInt8) (lengths : List Nat) : Prop where
  count : (packTable file).length = lengths.length
  table : ∀ e ∈ packTable file, 8 + 12 * (packTable file).length ≤ e.nameOffset
  names : (packTable file).Pairwise fun e f => e.nameOffset + e.nameLength ≤ f.nameOffset
  namesBefore : ∀ e ∈ packTable file, ∀ f ∈ packTable file, e.nameOffset + e.nameLength ≤ f.dataOffset
  data : (dataRegions file lengths).Pairwise fun e f => e.1 + e.2 ≤ f.1
  inside : ∀ e ∈ dataRegions file lengths, e.1 + e.2 ≤ file.length

section Regions

variable {nameOffset dataOffset : Nat} {models : List (Text × List UInt8)} {e : PackEntry}

theorem mem_layout_bounds (h : e ∈ layout nameOffset dataOffset models) :
    nameOffset ≤ e.nameOffset ∧ e.nameOffset + e.nameLength ≤ nameOffset + (nameSegments models).flatten.length ∧
    dataOffset ≤ e.dataOffset ∧
    e.dataOffset ≤ dataOffset + (dataSegments models).dropLast.flatten.length := by
  induction models using List.reverseRecOn with
  | nil => cases h
  | append_singleton done m ih =>
    rw [nameSegments_concat,dataSegments_concat,List.dropLast_concat,List.flatten_concat,List.length_append,
      tagBytes_length]
    rcases List.mem_append.mp (layout_concat ▸ h) with h | h
    · obtain ⟨hname,hend,hdata,hlast⟩ := ih h
      have hdrop : (dataSegments done).dropLast.flatten.length ≤ (dataSegments done).flatten.length :=
        (List.dropLast_sublist _).flatten.length_le
      omega
    · cases List.mem_singleton.mp h
      change nameOffset ≤ nameOffset + _ ∧ nameOffset + _ + m.1.length ≤ _ ∧ dataOffset ≤ dataOffset + _ ∧
        dataOffset + _ ≤ _
      omega

theorem layout_pairwise : (layout nameOffset dataOffset models).Pairwise fun e f =>
    e.nameOffset + e.nameLength ≤ f.nameOffset := by
  induction models generalizing nameOffset dataOffset with
  | nil => exact List.Pairwise.nil
  | cons m ms ih =>
    apply List.pairwise_cons.mpr
    refine ⟨?_,ih⟩
    intro e he
    exact (mem_layout_bounds he).1

theorem packedFile_length (format : Format) (models : List (Text × List UInt8)) :
    (packedFile format models).length =
      dataStart format (namesStart models.length) (nameSegments models).flatten.length +
        (dataSegments models).flatten.length := by
  rw [← dataStart_eq format models,packedFile,List.length_append,List.length_append,List.length_append,
    packNames_start]

theorem packedFile_regions {format : Format} (hnum : models.length < 4294967296)
    (hfits : ∀ e ∈ packLayout format models, e.Fits) :
    PackedRegions (packedFile format models) ((dataSegments models).map List.length) := by
  have hle := le_dataStart format (namesStart models.length) (nameSegments models).flatten.length
  have hlength : (packLayout format models).length = models.length := layout_length _ _ _
  constructor <;> simp only [dataRegions,packTable_packedFile hnum hfits]
  case count => rw [hlength,List.length_map,dataSegments_length]
  case table =>
    intro e he
    have hbounds := mem_layout_bounds he
    rw [hlength]
    rw [namesStart] at hbounds
    omega
  case names => exact layout_pairwise
  case namesBefore =>
    intro e he f hf
    have hname := mem_layout_bounds he
    have hdata := mem_layout_bounds hf
    omega
  case data =>
    rw [packLayout,layout_dataOffset]
    exact starts_pairwise
  case inside =>
    rw [packLayout,layout_dataOffset,packedFile_length]
    intro e he
    exact (mem_starts_bounds he).2

end Regions

/-- Where the last model's data starts. -/
def lastDataStart (format : Format) (models : List (Text × List UInt8)) : Nat :=
  dataStart format (namesStart models.length) (nameSegments models).flatten.length +
    (dataSegments models).dropLast.flatten.length

/-- Every word of the table fits when the last offset does. -/
theorem packLayout_fits_iff {format : Format} {models : List (Text × List UInt8)} (hne : models ≠ []) :
    (models.length < 4294967296 ∧ ∀ e ∈ packLayout format models, e.Fits) ↔
      lastDataStart format models < 4294967296 := by
  constructor
  · intro h
    obtain ⟨m,done,rfl⟩ : ∃ m done, models = done ++ [m] :=
      ⟨models.getLast hne,models.dropLast,(List.dropLast_append_getLast hne).symm⟩
    have hlast := (h.2 _ (by rw [packLayout,layout_concat]; exact List.mem_append_right _ List.mem_cons_self)).1
    rw [lastDataStart,dataSegments_concat,List.dropLast_concat]
    exact hlast
  · intro h
    have hle := le_dataStart format (namesStart models.length) (nameSegments models).flatten.length
    rw [lastDataStart] at h
    refine ⟨?_,fun e he => ?_⟩
    · rw [namesStart] at hle h
      omega
    · have hbounds := mem_layout_bounds he
      refine ⟨?_,?_,?_⟩ <;> omega

end Esp32Ipc.Detect
