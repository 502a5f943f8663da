import Esp32Ipc.Detect.PackLoop

/-!
# Packing files and reading them back

What `pack_models` writes for a directory or a list of paths, when it writes anything at all, and
what the reader finds in it.
-/

namespace Esp32Ipc.Detect

open Framework ByteMemory

theorem mapM_mem {ε α β : Type} {f : α → Except ε β} {l : List α} {bs : List β}
    (h : l.mapM f = .ok bs) : ∀ a ∈ l, ∃ b ∈ bs, f a = .ok b := by
  induction l generalizing bs with
  | nil => exact fun a ha => absurd ha List.not_mem_nil
  | cons a l ih =>
    simp only [List.mapM_cons,bind_eq_ok,pure,Except.pure,Except.ok.injEq] at h
    obtain ⟨b,hb,bs,hbs,rfl⟩ := h
    intro c hc
    rcases List.mem_cons.mp hc with rfl | hc
    · exact ⟨b,List.mem_cons_self,hb⟩
    · obtain ⟨d,hd,hcd⟩ := ih hbs c hc
      exact ⟨d,List.mem_cons_of_mem _ hd,hcd⟩

theorem mapM_eq_map {ε α β : Type} {f : α → Except ε β} {g : α → β} {l : List α}
    (h : ∀ a ∈ l, f a = .ok (g a)) : l.mapM f = .ok (l.map g) := by
  induction l with
  | nil => rfl
  | cons a l ih =>
    rw [List.mapM_cons,h a List.mem_cons_self,ih fun b hb => h b (List.mem_cons_of_mem _ hb)]
    rfl

section Files

variable {fs : FileSystem} {paths files : List Text} {p : Text} {format : Format} {file : List UInt8}

/-- A single file is copied as it is. -/
def Copies (fs : FileSystem) (paths : List Text) : Prop := ∃ p, paths = [p] ∧ fs.isFile p = true

/-- The models that are packed, in the order in which they are packed. -/
def modelFiles (fs : FileSystem) : List Text → List Text
  | [p] => sortPaths (fs.glob p)
  | ps => sortPaths ps

/-- What the pack is to hold of each file. -/
def packedModels (fs : FileSystem) (format : Format) (files : List Text) : List (Text × List UInt8) :=
  files.map fun p => (fs.name p,padData format ((fs.contents p).getD []))

def HasFormat (fs : FileSystem) (format : Format) (p : Text) : Prop :=
  ∃ contents, fs.contents p = some contents ∧ contents.take 4 = tagBytes format.tag

theorem getModelFormat_eq_ok : getModelFormat fs p = .ok format ↔ HasFormat fs format p := by
  rw [getModelFormat,HasFormat]
  cases fs.contents p with
  | none => simp [throw,throwThe,MonadExceptOf.throw]
  | some contents =>
    simp only [Option.some.injEq,exists_eq_left']
    by_cases h1 : contents.take 4 = tagBytes Format.edl1.tag
    · rw [if_pos h1,h1]
      cases format <;> decide
    · rw [if_neg h1]
      by_cases h2 : contents.take 4 = tagBytes Format.edl2.tag
      · rw [if_pos h2,h2]
        cases format <;> decide
      · rw [if_neg h2]
        constructor
        · intro h
          split at h <;> cases h
        · intro h
          cases format with
          | edl1 => exact absurd h h1
          | edl2 => exact absurd h h2

theorem readData_eq_ok {data : List UInt8} :
    readData fs format p = .ok data ↔ ∃ contents, fs.contents p = some contents ∧ data = padData format contents := by
  rw [readData]
  cases fs.contents p with
  | none => simp [throw,throwThe,MonadExceptOf.throw]
  | some contents => simp [pure,Except.pure,eq_comm]

private theorem formats_agree (h : ∀ p ∈ files, HasFormat fs format p) :
    files.mapM (getModelFormat fs) = .ok (files.map fun _ => format) ∧
      files.mapM (readData fs format) = .ok ((packedModels fs format files).map Prod.snd) := by
  refine ⟨mapM_eq_map fun p hp => getModelFormat_eq_ok.mpr (h p hp),?_⟩
  rw [packedModels,List.map_map]
  apply mapM_eq_map
  intro p hp
  obtain ⟨contents,hcontents,_⟩ := h p hp
  exact readData_eq_ok.mpr ⟨contents,hcontents,by simp [hcontents]⟩

theorem packFiles_eq_ok : packFiles fs files = .ok file ↔ files ≠ [] ∧ ∃ format,
    (∀ p ∈ files, HasFormat fs format p) ∧
      packBins format ((packedModels fs format files).map Prod.fst)
        ((packedModels fs format files).map Prod.snd) = .ok file := by
  have hnames (format : Format) : (packedModels fs format files).map Prod.fst = files.map fs.name := by
    rw [packedModels,List.map_map]
    rfl
  rw [packFiles,bind_eq_ok]
  constructor
  · rintro ⟨formats,hformats,h⟩
    cases formats with
    | nil => simp [throw,throwThe,MonadExceptOf.throw] at h
    | cons format others =>
      have hne : files ≠ [] := by
        rintro rfl
        cases hformats
      by_cases hsame : others.any (fun f => format ≠ f) = true
      · simp only [hsame,if_true,throw,throwThe,MonadExceptOf.throw,bind,Except.bind] at h
        cases h
      · have hall : ∀ p ∈ files, HasFormat fs format p := by
          intro p hp
          obtain ⟨f,hf,hp⟩ := mapM_mem hformats p hp
          have hf' : f = format := by
            rcases List.mem_cons.mp hf with rfl | hf
            · rfl
            · by_contra hdiff
              exact hsame (List.any_eq_true.mpr ⟨f,hf,by simpa using fun h => hdiff h.symm⟩)
          exact getModelFormat_eq_ok.mp (hf' ▸ hp)
        have hbins := (formats_agree hall).2
        simp only [hsame,hbins] at h
        exact ⟨hne,format,hall,by rw [hnames]; exact h⟩
  · rintro ⟨hne,format,hall,h⟩
    obtain ⟨hformats,hbins⟩ := formats_agree hall
    refine ⟨_,hformats,?_⟩
    cases files with
    | nil => exact absurd rfl hne
    | cons p ps =>
      have hsame : (ps.map fun _ => format).any (fun f => format ≠ f) = false := by simp
      rw [List.map_cons]
      simp only [hsame,hbins]
      rw [hnames] at h
      exact h

theorem packModels_eq_ok (h : ¬Copies fs paths) :
    packModels fs paths = .ok file ↔
      (paths.length ≠ 1 → ∀ p ∈ paths, fs.isFile p = true) ∧ packFiles fs (modelFiles fs paths) = .ok file := by
  have hmany : (∀ p ∈ sortPaths paths, fs.isFile p = true) ↔ ∀ p ∈ paths, fs.isFile p = true := by
    simp [sortPaths]
  rcases paths with _ | ⟨p,_ | ⟨q,ps⟩⟩
  · simp [packModels,modelFiles,sortPaths]
  · have hfile : ¬fs.isFile p = true := fun hp => h ⟨p,rfl,hp⟩
    rw [packModels,if_neg hfile,modelFiles]
    simp
  · rw [packModels,modelFiles]
    · by_cases hall : ∀ r ∈ p :: q :: ps, fs.isFile r = true
      · rw [if_pos (List.all_eq_true.mpr (hmany.mpr hall))]
        exact ⟨fun hok => ⟨fun _ => hall,hok⟩,fun hok => hok.2⟩
      · rw [if_neg (fun hok => hall (hmany.mp (List.all_eq_true.mp hok)))]
        constructor
        · intro hok
          cases hok
        · intro hok
          exact absurd (hok.1 (by simp)) hall
    · simp
    · simp

/-- What a pack that was written without copying holds. -/
theorem packModels_packed (h : ¬Copies fs paths) (hok : packModels fs paths = .ok file) :
    ∃ format, (∀ p ∈ modelFiles fs paths, HasFormat fs format p) ∧
      file = packedFile format (packedModels fs format (modelFiles fs paths)) ∧
      (packedModels fs format (modelFiles fs paths)).length < 4294967296 ∧
      ∀ e ∈ packLayout format (packedModels fs format (modelFiles fs paths)), e.Fits := by
  obtain ⟨-,hfiles⟩ := (packModels_eq_ok h).mp hok
  obtain ⟨-,format,hall,hbins⟩ := packFiles_eq_ok.mp hfiles
  obtain ⟨hfile,-,hnum,-,hfits⟩ := packBins_ok hbins
  exact ⟨format,hall,hfile,hnum,hfits⟩

/-- A directory with two `EDL2` models, listed out of order. -/
def twoModels : FileSystem where
  isFile p := p ≠ ['d']
  glob _ := [['b'],['a']]
  name p := p
  contents p := if p = ['a'] then some (tagBytes Format.edl2.tag ++ [7,8,9]) else some (tagBytes Format.edl2.tag)

def twoModelsPacked : List UInt8 := packedFile .edl2 (packedModels twoModels .edl2 [['a'],['b']])

theorem twoModels_pack : packModels twoModels [['d']] = .ok twoModelsPacked := rfl

theorem twoModels_not_copied : ¬Copies twoModels [['d']] := by
  rintro ⟨p,hp,hfile⟩
  cases hp
  exact absurd hfile (by decide)

theorem unpack_packedModels {files : List Text} (hnum : (packedModels fs format files).length < 4294967296)
    (hfits : ∀ e ∈ packLayout format (packedModels fs format files), e.Fits) :
    unpack (packedFile format (packedModels fs format files)) =
      some (format,files.map fun p => (tagBytes (fs.name p),padData format ((fs.contents p).getD []))) := by
  rw [unpack_packedFile hnum hfits,nameSegments,dataSegments,packedModels,List.map_map,List.map_map,
    List.zip_map']
  rfl

/-- Reading a pack by its own table gives every model back, in order: the bytes of its name, and its
contents with the padding of its format. -/
theorem packModels_unpack (h : ¬Copies fs paths) (hok : packModels fs paths = .ok file) :
    ∃ format, (∀ p ∈ modelFiles fs paths, HasFormat fs format p) ∧
      unpack file = some (format,(modelFiles fs paths).map fun p =>
        (tagBytes (fs.name p),padData format ((fs.contents p).getD []))) := by
  obtain ⟨format,hall,rfl,hnum,hfits⟩ := packModels_packed h hok
  exact ⟨format,hall,unpack_packedModels hnum hfits⟩

theorem packModels_unpack_two : ∃ format, (∀ p ∈ modelFiles twoModels [['d']], HasFormat twoModels format p) ∧
    unpack twoModelsPacked = some (format,(modelFiles twoModels [['d']]).map fun p =>
      (tagBytes (twoModels.name p),padData format ((twoModels.contents p).getD []))) :=
  packModels_unpack twoModels_not_copied twoModels_pack

end Files

section Success

variable {fs : FileSystem} {paths : List Text} {file : List UInt8}

theorem padData_edl2_length (data : List UInt8) : 16 ∣ (padData .edl2 data).length := by
  by_cases h : data.length % 16 = 0
  · rw [padData,if_neg (fun hpad => hpad.2 h)]
    exact Nat.dvd_of_mod_eq_zero h
  · rw [padData,if_pos ⟨rfl,h⟩,List.length_append,List.length_replicate]
    omega

theorem packedModels_aligned {files : List Text}
    (hnum : (packedModels fs .edl2 files).length < 4294967296)
    (hfits : ∀ e ∈ packLayout .edl2 (packedModels fs .edl2 files), e.Fits) :
    (∀ e ∈ packTable (packedFile .edl2 (packedModels fs .edl2 files)), 16 ∣ e.dataOffset) ∧
      16 ∣ (packedFile .edl2 (packedModels fs .edl2 files)).length := by
  set models := packedModels fs .edl2 files with hmodels
  have hsegs : ∀ s ∈ dataSegments models, 16 ∣ s.length := by
    intro s hs
    simp only [dataSegments,hmodels,packedModels,List.map_map,List.mem_map] at hs
    obtain ⟨q,-,rfl⟩ := hs
    exact padData_edl2_length _
  have hstart : 16 ∣ dataStart .edl2 (namesStart models.length) (nameSegments models).flatten.length :=
    Dvd.intro_left _ rfl
  constructor
  · intro e he
    rw [packTable_packedFile hnum hfits] at he
    apply dvd_of_mem_starts hstart hsegs
    rw [← layout_dataOffset (namesStart models.length)]
    exact List.mem_map_of_mem he
  · have hflat : 16 ∣ (dataSegments models).flatten.length := by
      rw [List.length_flatten]
      apply List.dvd_sum
      intro n hn
      obtain ⟨s,hs,rfl⟩ := List.mem_map.mp hn
      exact hsegs s hs
    rw [packedFile_length]
    exact Nat.dvd_add hstart hflat

/-- Names, padding and data stand one behind the other, and `EDL2` models on multiples of sixteen. -/
theorem packModels_regions (h : ¬Copies fs paths) (hok : packModels fs paths = .ok file) :
    ∃ format, (∀ p ∈ modelFiles fs paths, HasFormat fs format p) ∧
      PackedRegions file
        ((dataSegments (packedModels fs format (modelFiles fs paths))).map List.length) ∧
      (format = .edl2 → (∀ e ∈ packTable file, 16 ∣ e.dataOffset) ∧ 16 ∣ file.length) := by
  obtain ⟨format,hall,rfl,hnum,hfits⟩ := packModels_packed h hok
  refine ⟨format,hall,packedFile_regions hnum hfits,?_⟩
  intro hformat
  subst format
  exact packedModels_aligned hnum hfits

theorem packModels_regions_two : ∃ format,
    (∀ p ∈ modelFiles twoModels [['d']], HasFormat twoModels format p) ∧
      PackedRegions twoModelsPacked
        ((dataSegments (packedModels twoModels format (modelFiles twoModels [['d']]))).map List.length) ∧
      (format = .edl2 →
        (∀ e ∈ packTable twoModelsPacked, 16 ∣ e.dataOffset) ∧ 16 ∣ twoModelsPacked.length) :=
  packModels_regions twoModels_not_copied twoModels_pack

/-- Packing several models succeeds exactly when all of them are there in one format, their names are
ASCII, and the last one's data starts below four gigabytes. -/
theorem packModels_ok_iff (h : ¬Copies fs paths) (hnames : ∀ p ∈ modelFiles fs paths, fs.name p ≠ []) :
    (∃ file, packModels fs paths = .ok file) ↔
      (paths.length ≠ 1 → ∀ p ∈ paths, fs.isFile p = true) ∧ modelFiles fs paths ≠ [] ∧
      (∀ p ∈ modelFiles fs paths, Ascii (fs.name p)) ∧
      ∃ format, (∀ p ∈ modelFiles fs paths, HasFormat fs format p) ∧
        lastDataStart format (packedModels fs format (modelFiles fs paths)) < 4294967296 := by
  have hmem (format : Format) (Q : Text → Prop) :
      (∀ m ∈ packedModels fs format (modelFiles fs paths), Q m.1) ↔
        ∀ p ∈ modelFiles fs paths, Q (fs.name p) := by
    simp [packedModels]
  have hne (format : Format) :
      packedModels fs format (modelFiles fs paths) ≠ [] ↔ modelFiles fs paths ≠ [] := by
    simp [packedModels]
  simp only [packModels_eq_ok h,packFiles_eq_ok]
  constructor
  · rintro ⟨file,hall,hfiles,format,hformats,hbins⟩
    obtain ⟨-,hnone,hnum,hascii,hfits⟩ := packBins_ok hbins
    exact ⟨hall,hfiles,(hmem format Ascii).mp hascii,format,hformats,
      (packLayout_fits_iff hnone).mp ⟨hnum,hfits⟩⟩
  · rintro ⟨hall,hfiles,hascii,format,hformats,hlast⟩
    obtain ⟨hnum,hfits⟩ := (packLayout_fits_iff ((hne format).mpr hfiles)).mpr hlast
    exact ⟨_,hall,hfiles,format,hformats,packBins_exists ((hne format).mpr hfiles) hnum
      ((hmem format fun n => n ≠ [] ∧ Ascii n).mpr fun p hp => ⟨hnames p hp,hascii p hp⟩) hfits⟩

theorem packModels_ok_iff_two : (∃ file, packModels twoModels [['d']] = .ok file) ↔
    (([['d']] : List Text).length ≠ 1 → ∀ p ∈ [['d']], twoModels.isFile p = true) ∧
    modelFiles twoModels [['d']] ≠ [] ∧
    (∀ p ∈ modelFiles twoModels [['d']], Ascii (twoModels.name p)) ∧
    ∃ format, (∀ p ∈ modelFiles twoModels [['d']], HasFormat twoModels format p) ∧
      lastDataStart format (packedModels twoModels format (modelFiles twoModels [['d']])) < 4294967296 :=
  packModels_ok_iff twoModels_not_copied (by decide)

end Success

end Esp32Ipc.Detect
