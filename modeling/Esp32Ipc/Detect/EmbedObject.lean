import Esp32Ipc.Detect.EmbedAsm
import Esp32Ipc.Detect.PackReader

/-!
# The object that the generated source assembles to
-/

namespace Esp32Ipc.Detect

open Framework

section Symbols

variable {alignment : Nat → Nat} {o : AsmObject} {str : List Char} {comment : Option (List Char)}

theorem asmLine_identifierLabel (hstr : str ≠ []) (comment : Option (List Char)) :
    asmLine (makeCIdentifier str ++ text ":" ++ comment.elim [] fun _ => [' ',' ']) =
      some (.label (makeCIdentifier str)) := by
  have hsymbol := asmSymbol_makeCIdentifier hstr
  obtain ⟨hne,hletters⟩ := asmSymbol_letters hsymbol
  have hlabel : asmLine (makeCIdentifier str ++ text ":") = some (.label (makeCIdentifier str)) :=
    asmLine_label hsymbol
  have hdrop : ∀ rest, (makeCIdentifier str ++ rest).dropWhile isBlank ≠ [] := by
    intro rest
    cases hletter : makeCIdentifier str with
    | nil => exact absurd hletter hne
    | cons c symbol =>
      have hblank := (hletters c (by rw [hletter]; exact List.mem_cons_self)).1
      rw [List.cons_append,List.dropWhile_cons_of_neg (by simp [hblank])]
      exact List.cons_ne_nil _ _
  cases comment with
  | none => rw [Option.elim_none,List.append_nil,hlabel]
  | some _ =>
    have hblanks : makeCIdentifier str ++ text ":" ++ [' ',' '] =
        makeCIdentifier str ++ text ":" ++ [' '] ++ [' '] := by simp
    have hfirst : asmLine (makeCIdentifier str ++ text ":" ++ [' ']) =
        asmLine (makeCIdentifier str ++ text ":") := asmLine_concat_blank rfl (hdrop _)
    have hsecond : asmLine (makeCIdentifier str ++ text ":" ++ [' '] ++ [' ']) =
        asmLine (makeCIdentifier str ++ text ":" ++ [' ']) := by
      apply asmLine_concat_blank rfl
      rw [List.append_assoc]
      exact hdrop _
    rw [Option.elim_some,hblanks,hsecond,hfirst,hlabel]

theorem assembleLines_identifier (hstr : str ≠ []) (hnew : makeCIdentifier str ∉ o.symbols.map Prod.fst)
    (lines : List (List Char)) :
    assembleLines alignment o (identifierLines str comment ++ lines) =
      assembleLines alignment (o.define (makeCIdentifier str)) lines := by
  have hblank : asmLine [] = some .blank := rfl
  have hglobal := asmLine_global (asmSymbol_makeCIdentifier hstr)
  have hstep : AsmObject.step alignment { o with globals := o.globals ++ [makeCIdentifier str] }
      (.label (makeCIdentifier str)) = some (o.define (makeCIdentifier str)) := if_neg hnew
  rw [identifierLines,List.cons_append,assembleLines_cons hblank rfl,List.cons_append,
    assembleLines_cons hglobal rfl,List.cons_append]
  exact assembleLines_cons (asmLine_identifierLabel hstr comment) hstep lines

theorem makeCIdentifier_length (str : List Char) :
    (makeCIdentifier str).length = str.length + if str.head?.any Char.isDigit then 1 else 0 := by
  rw [makeCIdentifier]
  split_ifs <;> simp

end Symbols

section Opening

variable {holds : List Char → Bool} {alignment : Nat → Nat}

/-- `.section .rodata.embedded`, aligned and empty. -/
def openedObject (alignment : Nat → Nat) : AsmObject where
  current := text ".rodata.embedded"
  content := fun _ => []
  aligned := Function.update (fun _ => 1) (text ".rodata.embedded") (max 1 (alignment 16))
  symbols := []
  globals := []

theorem preprocess_opening (hholds : holds (text "!defined (__APPLE__) && !defined (__linux__)") = true)
    {lines : List (List Char)} (hlines : ∀ line ∈ lines, line.head? ≠ some '#') :
    preprocess holds [] ([' '] :: openingLines ++ lines) =
      [[' '],text ".data",text ".section .rodata.embedded",text ".align 16"] ++ lines := by
  have hafter : preprocess holds [] (text ".align 16" :: lines ++ []) = text ".align 16" :: lines ++ [] := by
    apply preprocess_append rfl
    intro line hline
    rcases List.mem_cons.mp hline with rfl | hline
    · decide
    · exact hlines line hline
  rw [List.append_nil] at hafter
  have hinside : preprocess holds [true]
      (text ".section .rodata.embedded" :: text "#endif" :: text ".align 16" :: lines) =
        text ".section .rodata.embedded" :: text ".align 16" :: lines := by
    have hplain : preprocess holds [true] ([text ".section .rodata.embedded"] ++
        (text "#endif" :: text ".align 16" :: lines)) = _ := preprocess_append rfl (by decide) _
    refine hplain.trans ?_
    change text ".section .rodata.embedded" :: preprocess holds [] (text ".align 16" :: lines) = _
    rw [hafter]
  have hbefore : preprocess holds [] ([[' '],text ".data"] ++
      (text "#if !defined (__APPLE__) && !defined (__linux__)" :: text ".section .rodata.embedded" ::
        text "#endif" :: text ".align 16" :: lines)) = _ := preprocess_append rfl (by decide) _
  refine hbefore.trans ?_
  change [' '] :: text ".data" :: preprocess holds
    (holds (text "!defined (__APPLE__) && !defined (__linux__)") :: []) (text ".section .rodata.embedded" ::
      text "#endif" :: text ".align 16" :: lines) = _
  rw [hholds,hinside]
  rfl

theorem assembleLines_opening (lines : List (List Char)) :
    assembleLines alignment .empty
        ([[' '],text ".data",text ".section .rodata.embedded",text ".align 16"] ++ lines) =
      assembleLines alignment (openedObject alignment) lines := by
  have hblank : asmLine [' '] = some .blank := by decide
  have hdata : asmLine (text ".data") = some (.sectionName (text ".data")) := by decide
  have hsection : asmLine (text ".section .rodata.embedded") =
      some (.sectionName (text ".rodata.embedded")) := by decide
  have halign : asmLine (text ".align 16") = some (.align 16) := by decide
  have hnone : (alignment 16 - 0 % alignment 16) % alignment 16 = 0 := by
    rw [Nat.zero_mod,Nat.sub_zero,Nat.mod_self]
  have hstep : AsmObject.step alignment { AsmObject.empty with current := text ".rodata.embedded" }
      (.align 16) = some (openedObject alignment) := by
    have hhere : AsmObject.here { AsmObject.empty with current := text ".rodata.embedded" } = 0 := rfl
    rw [AsmObject.step,hhere,hnone,List.replicate_zero,put_nil]
    rfl
  rw [List.cons_append,assembleLines_cons hblank rfl,List.cons_append,assembleLines_cons hdata rfl,
    List.cons_append,assembleLines_cons hsection rfl]
  exact assembleLines_cons halign hstep lines

end Opening

section Object

variable {job : EmbedJob} {rows : List (List UInt8)}

theorem identifierLines_plain (str : List Char) (comment : Option (List Char)) :
    ∀ line ∈ identifierLines str comment, '\n' ∉ line ∧ line.head? ≠ some '#' := by
  have hnewline := newline_notMem_makeCIdentifier str
  have hhash : ∀ rest, (makeCIdentifier str ++ text ":" ++ rest).head? ≠ some '#' := by
    intro rest
    cases hsymbol : makeCIdentifier str with
    | nil => exact show some ':' ≠ some '#' by decide
    | cons c symbol =>
      rw [List.append_assoc,List.cons_append,List.head?_cons]
      rintro ⟨⟩
      rcases makeCIdentifier_letters str '#' (by rw [hsymbol]; exact List.mem_cons_self) with h | h
      · exact absurd h (by decide)
      · exact absurd h (by decide)
  intro line hline
  simp only [identifierLines,List.mem_cons,List.not_mem_nil,or_false] at hline
  rcases hline with rfl | rfl | rfl
  · exact ⟨by simp,by simp⟩
  · refine ⟨?_,show some '.' ≠ some '#' by decide⟩
    rw [List.mem_append]
    exact fun h => h.elim (by decide) hnewline
  · refine ⟨?_,hhash _⟩
    rw [List.mem_append,List.mem_append]
    rintro ((h | h) | h)
    · exact hnewline h
    · exact absurd h (by decide)
    · cases comment with
      | none => cases h
      | some _ => exact absurd h (show '\n' ∉ [' ',' '] by decide)

theorem symbolLines_plain (job : EmbedJob) (rows : List (List UInt8)) :
    ∀ line ∈ symbolLines job rows, '\n' ∉ line ∧ line.head? ≠ some '#' := by
  intro line hline
  simp only [symbolLines,List.mem_append,List.mem_cons,List.not_mem_nil,or_false] at hline
  rcases hline with h | h | h | h | rfl | h | rfl
  · exact identifierLines_plain _ _ line h
  · exact identifierLines_plain _ _ line h
  · obtain ⟨row,_,rfl⟩ := List.mem_map.mp h
    exact ⟨notMem_byteLine (by decide) (by decide) row,show some '.' ≠ some '#' by decide⟩
  · exact identifierLines_plain _ _ line h
  · exact ⟨by simp,by simp⟩
  · exact identifierLines_plain _ _ line h
  · refine ⟨?_,show some '.' ≠ some '#' by decide⟩
    rw [List.mem_append]
    rintro (h | h)
    · exact absurd h (by decide)
    · exact absurd (Nat.isDigit_of_mem_toDigits (by decide) (by decide) h) (by decide)

theorem identifiers_distinct (name : List Char) :
    [makeCIdentifier name,makeCIdentifier (text "_binary_" ++ name ++ text "_start"),
      makeCIdentifier (text "_binary_" ++ name ++ text "_end"),
      makeCIdentifier (name ++ text "_length")].Nodup := by
  have hdigit : ∀ str : List Char, (if str.head?.any Char.isDigit then 1 else 0) ≤ 1 := by
    intro str
    split_ifs <;> decide
  have hname := makeCIdentifier_length name
  have hstart : (makeCIdentifier (text "_binary_" ++ name ++ text "_start")).length = name.length + 14 := by
    rw [makeCIdentifier_length,List.length_append,List.length_append]
    change 8 + name.length + 6 + 0 = _
    omega
  have hend : (makeCIdentifier (text "_binary_" ++ name ++ text "_end")).length = name.length + 12 := by
    rw [makeCIdentifier_length,List.length_append,List.length_append]
    change 8 + name.length + 4 + 0 = _
    omega
  have hlength := makeCIdentifier_length (name ++ text "_length")
  have hseven : (name ++ text "_length").length = name.length + 7 := List.length_append
  have hone := hdigit name
  have hother := hdigit (name ++ text "_length")
  apply List.Nodup.of_map List.length
  simp only [List.map_cons,List.map_nil,List.nodup_cons,List.mem_cons,List.not_mem_nil,or_false,
    not_or,List.nodup_nil,and_true,not_false_eq_true]
  omega

def embeddedObject (job : EmbedJob) (alignment : Nat → Nat) : AsmObject :=
  let varname := job.varname
  (((((openedObject alignment).define (makeCIdentifier varname)).define
    (makeCIdentifier (text "_binary_" ++ varname ++ text "_start"))).put job.stored |>.define
    (makeCIdentifier (text "_binary_" ++ varname ++ text "_end"))).define
    (makeCIdentifier (varname ++ text "_length"))).put (AsmObject.wordBytes job.data.length)

theorem assembleLines_symbols {alignment : Nat → Nat} (hname : job.varname ≠ [])
    (hstored : job.stored = rows.flatten) (hrows : ∀ row ∈ rows, row ≠ []) :
    assembleLines alignment (openedObject alignment) (symbolLines job rows ++ [[]]) =
      some (embeddedObject job alignment) := by
  have hblank : asmLine [] = some .blank := rfl
  have hdistinct := identifiers_distinct job.varname
  simp only [List.nodup_cons,List.mem_cons,List.not_mem_nil,or_false,not_or,List.nodup_nil] at hdistinct
  obtain ⟨⟨hstart,hend,hlength⟩,⟨hstartEnd,hstartLength⟩,hendLength,_⟩ := hdistinct
  simp only [symbolLines,List.append_assoc,List.cons_append,List.nil_append]
  rw [assembleLines_identifier hname (by simp [openedObject])]
  rw [assembleLines_identifier (by simp [hname])
    (by simpa [openedObject,AsmObject.define] using Ne.symm hstart)]
  rw [assembleLines_rows hrows,← hstored]
  rw [assembleLines_identifier (by simp [hname])
    (by simpa [openedObject,AsmObject.define] using ⟨Ne.symm hend,Ne.symm hstartEnd⟩)]
  rw [assembleLines_cons hblank rfl]
  rw [assembleLines_identifier (by simp [hname])
    (by simpa [openedObject,AsmObject.define] using ⟨Ne.symm hlength,Ne.symm hstartLength,Ne.symm hendLength⟩)]
  rw [assembleLines_cons (asmLine_long _) rfl,assembleLines_cons hblank rfl]
  simp [embeddedObject,assembleLines]

theorem assemble_embedAsm {holds : List Char → Bool} (alignment : Nat → Nat)
    (hholds : holds (text "!defined (__APPLE__) && !defined (__linux__)") = true)
    (hpath : ¬['*','/'] <:+: job.dataFile) (hname : job.varname ≠ []) :
    assemble holds alignment job.source = some (embeddedObject job alignment) := by
  obtain ⟨rows,hstored,hrows,hlines⟩ := byteExpressions_lines job.stored
  have hplain := symbolLines_plain job rows
  have hsplit : (unlines ([' '] :: openingLines ++ symbolLines job rows)).splitOn '\n' =
      [' '] :: openingLines ++ symbolLines job rows ++ [[]] := by
    apply splitOn_unlines
    intro line hline
    rcases List.mem_append.mp hline with hline | hline
    · exact (show ∀ line ∈ [' '] :: openingLines, '\n' ∉ line by decide) line hline
    · exact (hplain line hline).1
  have hhash : ∀ line ∈ symbolLines job rows ++ [[]], line.head? ≠ some '#' := by
    intro line hline
    rcases List.mem_append.mp hline with hline | hline
    · exact (hplain line hline).2
    · rw [List.mem_singleton.mp hline]
      simp
  rw [assemble,stripComments_embedAsm hpath hlines,Option.bind_some,hsplit,List.append_assoc,
    preprocess_opening hholds hhash,assembleLines_opening,assembleLines_symbols hname hstored hrows]

/-- The bytes stored lie between the two symbols, on the boundary asked for, with the length after
them; nothing is put into any other section. -/
structure Embeds (job : EmbedJob) (alignment : Nat → Nat) (o : AsmObject) : Prop where
  stored : o.between (makeCIdentifier (text "_binary_" ++ job.varname ++ text "_start"))
    (makeCIdentifier (text "_binary_" ++ job.varname ++ text "_end")) = some job.stored
  name : o.find (makeCIdentifier job.varname) = some (text ".rodata.embedded",0)
  start : o.find (makeCIdentifier (text "_binary_" ++ job.varname ++ text "_start")) =
    some (text ".rodata.embedded",0)
  length : ∃ place, o.find (makeCIdentifier (job.varname ++ text "_length")) =
      some (text ".rodata.embedded",place) ∧
    (o.content (text ".rodata.embedded")).drop place = AsmObject.wordBytes job.data.length
  visible : ∀ s ∈ o.symbols, s.1 ∈ o.globals
  aligned : o.aligned (text ".rodata.embedded") = max 1 (alignment 16)
  elsewhere : ∀ other, other ≠ text ".rodata.embedded" → o.content other = []

theorem embeddedObject_embeds (job : EmbedJob) (alignment : Nat → Nat) :
    Embeds job alignment (embeddedObject job alignment) := by
  have hsymbols : (embeddedObject job alignment).symbols =
      [(makeCIdentifier job.varname,text ".rodata.embedded",0),
        (makeCIdentifier (text "_binary_" ++ job.varname ++ text "_start"),text ".rodata.embedded",0),
        (makeCIdentifier (text "_binary_" ++ job.varname ++ text "_end"),text ".rodata.embedded",
          job.stored.length),
        (makeCIdentifier (job.varname ++ text "_length"),text ".rodata.embedded",job.stored.length)] := by
    simp [embeddedObject,AsmObject.define,AsmObject.put,AsmObject.here,openedObject]
  have hcontent : (embeddedObject job alignment).content (text ".rodata.embedded") =
      job.stored ++ AsmObject.wordBytes job.data.length := by
    simp [embeddedObject,AsmObject.define,AsmObject.put,openedObject]
  have hdistinct : ((embeddedObject job alignment).symbols.map Prod.fst).Nodup := by
    rw [hsymbols]
    exact identifiers_distinct job.varname
  have hstart : (embeddedObject job alignment).find
      (makeCIdentifier (text "_binary_" ++ job.varname ++ text "_start")) =
        some (text ".rodata.embedded",0) := find_of_mem hdistinct (by rw [hsymbols]; simp)
  have hend : (embeddedObject job alignment).find
      (makeCIdentifier (text "_binary_" ++ job.varname ++ text "_end")) =
        some (text ".rodata.embedded",job.stored.length) := find_of_mem hdistinct (by rw [hsymbols]; simp)
  refine ⟨?_,find_of_mem hdistinct (by rw [hsymbols]; simp),hstart,
    ⟨job.stored.length,find_of_mem hdistinct (by rw [hsymbols]; simp),?_⟩,?_,?_,?_⟩
  · rw [AsmObject.between,hstart,hend]
    simp [hcontent]
  · rw [hcontent,List.drop_left]
  · intro s hs
    rw [hsymbols] at hs
    simp only [List.mem_cons,List.not_mem_nil,or_false] at hs
    simp only [embeddedObject,AsmObject.define,AsmObject.put,openedObject]
    rcases hs with rfl | rfl | rfl | rfl <;> simp
  · simp [embeddedObject,AsmObject.define,AsmObject.put,openedObject]
  · intro other hother
    simp [embeddedObject,AsmObject.define,AsmObject.put,openedObject,Function.update_of_ne hother]

/-- With both files named the assembler source holds the data file, whatever is in the file. The path
stands in a comment of the source, so it must not end it; `alignment` says what the assembler makes of
`.align`. -/
theorem embedAsm_embeds {holds : List Char → Bool} (alignment : Nat → Nat)
    (hholds : holds (text "!defined (__APPLE__) && !defined (__linux__)") = true)
    (hdata : cmakeFalse job.dataFile = false) (hsource : cmakeFalse job.sourceFile = false)
    (hpath : ¬['*','/'] <:+: job.dataFile) (hname : job.varname ≠ []) :
    ∃ source o, dataFileEmbedAsm job = .ok source ∧ assemble holds alignment source = some o ∧
      Embeds job alignment o :=
  ⟨_,_,dataFileEmbedAsm_ok hdata hsource,assemble_embedAsm alignment hholds hpath hname,
    embeddedObject_embeds job alignment⟩

/-- What CMake defines for neither target. -/
def deviceHolds (condition : List Char) : Bool :=
  condition == text "!defined (__APPLE__) && !defined (__linux__)"

/-- `OFF` is no name, so the symbols have the file's. -/
def textJob : EmbedJob where
  dataFile := text "/build/2fast.txt"
  data := [104,105]
  sourceFile := text "/build/2fast.txt.S"
  isText := true
  variableBasename := text "off"

theorem embedAsm_embeds_text : ∃ source o, dataFileEmbedAsm textJob = .ok source ∧
    assemble deviceHolds (2 ^ ·) source = some o ∧ Embeds textJob (2 ^ ·) o :=
  embedAsm_embeds _ rfl (by decide) (by decide) (by decide) (by decide)

end Object

section Image

variable {fs : FileSystem} {paths : List Text} {file : List UInt8} {buildDir dataFile : List Char}

/-- The build's two steps: `target_add_aligned_binary_data` makes `embed_srcfile` of what `pack_models`
wrote. -/
def modelJob (buildDir dataFile : List Char) (file : List UInt8) : EmbedJob where
  dataFile := dataFile
  data := file
  sourceFile := buildDir ++ text "/" ++ fileName dataFile ++ text ".S"
  isText := false
  variableBasename := []

/-- `asm("_binary_pedestrian_detect_espdl_start")` -/
def pedestrianDetectEspdl : List Char := text "_binary_pedestrian_detect_espdl_start"

theorem fileName_suffix (path : List Char) : fileName path <:+ path := by
  have hprefix : path.reverse.takeWhile (· ≠ '/') <+: path.reverse := List.takeWhile_prefix _
  have hsuffix := List.reverse_suffix.mpr hprefix
  rwa [List.reverse_reverse] at hsuffix

theorem cmakeFalse_modelFile (hfile : fileName dataFile = text "pedestrian_detect.espdl") :
    cmakeFalse dataFile = false := by
  obtain ⟨directory,hpath⟩ := fileName_suffix dataFile
  rw [hfile] at hpath
  rw [← hpath]
  apply cmakeFalse_long
  · simp [text]
  · simp [text]

/-- The array that `pedestrian_detect.cpp` declares is the pack, so it reads as the models that were
packed, and wherever the section comes to lie the data of `EDL2` models is on 16 byte boundaries. The
path must not end the comment that it stands in. -/
theorem modelImage_holds {holds : List Char → Bool} {alignment : Nat → Nat}
    (hholds : holds (text "!defined (__APPLE__) && !defined (__linux__)") = true)
    (halign : 16 ∣ alignment 16) (hpos : 0 < alignment 16) (hpath : ¬['*','/'] <:+: dataFile)
    (hfile : fileName dataFile = text "pedestrian_detect.espdl") (hok : packModels fs paths = .ok file) :
    ∃ source o, dataFileEmbedAsm (modelJob buildDir dataFile file) = .ok source ∧
      assemble holds alignment source = some o ∧
      o.between pedestrianDetectEspdl (text "_binary_pedestrian_detect_espdl_end") = some file ∧
      (∀ p, paths = [p] → fs.isFile p = true → fs.contents p = some file) ∧
      (¬Copies fs paths → ∃ format, (∀ p ∈ modelFiles fs paths, HasFormat fs format p) ∧
        unpack file = some (format,(modelFiles fs paths).map fun p =>
          (tagBytes (fs.name p),padData format ((fs.contents p).getD []))) ∧
        (format = .edl2 → ∀ place, o.find pedestrianDetectEspdl = some (text ".rodata.embedded",place) →
          ∀ base, o.aligned (text ".rodata.embedded") ∣ base →
            ∀ e ∈ packTable file, 16 ∣ base + place + e.dataOffset)) := by
  have hvarname : (modelJob buildDir dataFile file).varname = text "pedestrian_detect.espdl" := hfile
  have hstart : makeCIdentifier (text "_binary_" ++ text "pedestrian_detect.espdl" ++ text "_start") =
      pedestrianDetectEspdl := by decide
  have hend : makeCIdentifier (text "_binary_" ++ text "pedestrian_detect.espdl" ++ text "_end") =
      text "_binary_pedestrian_detect_espdl_end" := by decide
  have hsource : cmakeFalse (modelJob buildDir dataFile file).sourceFile = false := by
    apply cmakeFalse_long
    · simp [modelJob,hfile,text]
    · simp [modelJob,hfile,text]
  have hembeds := embeddedObject_embeds (modelJob buildDir dataFile file) alignment
  have hstored := hembeds.stored
  have hplace := hembeds.start
  rw [hvarname,hstart,hend] at hstored
  rw [hvarname,hstart] at hplace
  refine ⟨_,_,dataFileEmbedAsm_ok (cmakeFalse_modelFile hfile) hsource,
    assemble_embedAsm alignment hholds hpath (by rw [hvarname]; decide),hstored,?_,?_⟩
  · rintro p rfl hp
    rw [packModels,if_pos hp] at hok
    cases hcontents : fs.contents p with
    | none =>
      rw [hcontents] at hok
      cases hok
    | some contents =>
      rw [hcontents] at hok
      rw [Except.ok.inj hok]
  · intro hcopies
    obtain ⟨format,hall,rfl,hnum,hfits⟩ := packModels_packed hcopies hok
    refine ⟨format,hall,unpack_packedModels hnum hfits,?_⟩
    rintro rfl place hfound base hbase e he
    rw [hplace] at hfound
    obtain ⟨_,rfl⟩ := Prod.mk.inj (Option.some.inj hfound)
    rw [hembeds.aligned,max_eq_right hpos] at hbase
    exact Nat.dvd_add (Nat.dvd_add (halign.trans hbase) (dvd_zero 16)) ((packedModels_aligned hnum hfits).1 e he)

theorem modelImage_holds_two : ∃ source o,
    dataFileEmbedAsm (modelJob (text "build") (text "build/espdl_models/pedestrian_detect.espdl")
      twoModelsPacked) = .ok source ∧
      assemble deviceHolds (2 ^ ·) source = some o ∧
      o.between pedestrianDetectEspdl (text "_binary_pedestrian_detect_espdl_end") = some twoModelsPacked ∧
      (∀ p, [['d']] = [p] → twoModels.isFile p = true → twoModels.contents p = some twoModelsPacked) ∧
      (¬Copies twoModels [['d']] → ∃ format, (∀ p ∈ modelFiles twoModels [['d']], HasFormat twoModels format p) ∧
        unpack twoModelsPacked = some (format,(modelFiles twoModels [['d']]).map fun p =>
          (tagBytes (twoModels.name p),padData format ((twoModels.contents p).getD []))) ∧
        (format = .edl2 → ∀ place, o.find pedestrianDetectEspdl = some (text ".rodata.embedded",place) →
          ∀ base, o.aligned (text ".rodata.embedded") ∣ base →
            ∀ e ∈ packTable twoModelsPacked, 16 ∣ base + place + e.dataOffset)) :=
  modelImage_holds rfl (by decide) (by decide) (by decide) (by decide) twoModels_pack

end Image

end Esp32Ipc.Detect
