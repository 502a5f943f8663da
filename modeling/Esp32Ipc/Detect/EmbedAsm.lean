import Esp32Ipc.Framework.Assembler
import Esp32Ipc.Framework.RegexReplace

/-!
# The script that turns a data file into assembler source

`data_file_embed_asm_aligned.cmake`. Text is the list of its bytes, each as a character.
-/

namespace Esp32Ipc.Detect

open Framework

/-- The values for which `if(<variable>)` is false; a variable that is not set is empty. -/
def cmakeFalse (value : List Char) : Bool :=
  [[],text "0",text "OFF",text "NO",text "FALSE",text "N",text "IGNORE",text "NOTFOUND"].contains
    (value.map Char.toUpper) || (text "-NOTFOUND").isSuffixOf value

/-- The variables the script is run with: `DATA_FILE` and what is in it, `SOURCE_FILE`, whether
`FILE_TYPE` is `TEXT`, and `VARIABLE_BASENAME`. -/
structure EmbedJob where
  dataFile : List Char
  data : List UInt8
  sourceFile : List Char
  isText : Bool
  variableBasename : List Char

/-- `file(READ ... HEX)` -/
def fileReadHex (data : List UInt8) : List Char :=
  data.flatMap fun b => [(b.toNat / 16).digitChar,(b.toNat % 16).digitChar]

/-- `[0-9a-f]` -/
def isHexDigit (c : Char) : Bool := c.isDigit || (decide ('a' ≤ c) && decide (c ≤ 'f'))

def byteExpressionOf (word : List Char) : List Char := text ".byte " ++ word ++ ['\n']

def hexByteOf (word : List Char) : List Char := text "0x" ++ word ++ text ", "

/-- `................................` -/
def anyLine : List (RegexItem Char) := (List.replicate 32 fun _ => true).map .one

/-- `[^\n]+$` -/
def lastLine : List (RegexItem Char) := [.one (· ≠ '\n'),.star (· ≠ '\n'),.eos]

/-- `[0-9a-f][0-9a-f]` -/
def hexPair : List (RegexItem Char) := [isHexDigit,isHexDigit].map .one

/-- `, \n` -/
def lastComma : List (RegexItem Char) := [(· == ','),(· == ' '),(· == '\n')].map .one

/-- The raw hex bytes as `.byte` expressions: 16 bytes per line, the last line, hex formatted C bytes,
and the last comma trimmed. -/
def byteExpressions (data : List Char) : List Char :=
  let data := regexReplace anyLine byteExpressionOf data
  let data := regexReplace lastLine byteExpressionOf data
  let data := regexReplace hexPair hexByteOf data
  regexReplace lastComma (fun _ => ['\n']) data

/-- `string(MAKE_C_IDENTIFIER ...)` -/
def makeCIdentifier (str : List Char) : List Char :=
  let symbol := str.map fun c => if c.isAlphanum then c else '_'
  if str.head?.any Char.isDigit then '_' :: symbol else symbol

/-- `get_filename_component(... NAME)` -/
def fileName (path : List Char) : List Char := (path.reverse.takeWhile (· ≠ '/')).reverse

def append (file str : List Char) : List Char := file ++ str

def appendLine (file str : List Char) : List Char := append file (str ++ ['\n'])

def makeAndAppendIdentifier (file str : List Char) (comment : Option (List Char)) : List Char :=
  let symbol := makeCIdentifier str
  let file := appendLine file (text "\n.global " ++ symbol)
  let file := append file (symbol ++ [':'])
  let file := match comment with
    | some comment => append file (text " /* " ++ comment ++ text " */")
    | none => file
  append file ['\n']

def EmbedJob.varname (job : EmbedJob) : List Char :=
  if cmakeFalse job.variableBasename then fileName job.dataFile else job.variableBasename

/-- What the script leaves in `SOURCE_FILE`. -/
def EmbedJob.source (job : EmbedJob) : List Char :=
  let data := fileReadHex job.data
  let dataLen := data.length / 2
  let data := if job.isText then data ++ text "00" else data
  let data := byteExpressions data
  let varname := job.varname
  let file := text "/*"
  let file := appendLine file (text " * Data converted from " ++ job.dataFile)
  let file := if job.isText then appendLine file (text " * (null byte appended)") else file
  let file := appendLine file (text " */")
  let file := appendLine file (text ".data")
  let file := appendLine file (text "#if !defined (__APPLE__) && !defined (__linux__)")
  let file := appendLine file (text ".section .rodata.embedded")
  let file := appendLine file (text "#endif")
  let file := appendLine file (text ".align 16")
  let file := makeAndAppendIdentifier file varname none
  let file := makeAndAppendIdentifier file (text "_binary_" ++ varname ++ text "_start")
    (some (text "for objcopy compatibility"))
  let file := append file data
  let file := makeAndAppendIdentifier file (text "_binary_" ++ varname ++ text "_end")
    (some (text "for objcopy compatibility"))
  let file := appendLine file []
  let file := if job.isText then
      makeAndAppendIdentifier file (varname ++ text "_length") (some (text "not including null byte"))
    else makeAndAppendIdentifier file (varname ++ text "_length") none
  appendLine file (text ".long " ++ Nat.toDigits 10 dataLen)

def dataFileEmbedAsm (job : EmbedJob) : Except (List Char) (List Char) :=
  if cmakeFalse job.dataFile then .error (text "DATA_FILE for converting must be specified")
  else if cmakeFalse job.sourceFile then .error (text "SOURCE_FILE destination must be specified")
  else .ok job.source

/-- What the file is to hold between the two symbols. -/
def EmbedJob.stored (job : EmbedJob) : List UInt8 :=
  if job.isText then job.data ++ [0] else job.data

section Patterns

variable {f : List Char → List Char} {w : List Char} {c : Char}

theorem anyLine_word (hw : w.length = 32) (s : List Char) :
    regexReplace anyLine f (w ++ s) = f w ++ regexReplace anyLine f s := by
  have hword := anyLetters w
  rw [hw] at hword
  exact regexReplace_word (by simp) hword

theorem anyLine_short (hw : w.length < 32) : regexReplace anyLine f w = w :=
  regexReplace_short (by simpa using hw)

theorem lastLine_append (w s : List Char) :
    regexReplace lastLine f (w ++ '\n' :: s) = w ++ '\n' :: regexReplace lastLine f s :=
  regexReplace_lastRun_append (by decide)

theorem lastLine_run (hw : w ≠ []) (hline : '\n' ∉ w) : regexReplace lastLine f w = f w := by
  apply regexReplace_lastRun hw
  apply List.all_eq_true.mpr
  intro c hc
  apply decide_eq_true
  rintro rfl
  exact hline hc

theorem hexPair_pair {d : Char} (hc : isHexDigit c = true) (hd : isHexDigit d = true) (s : List Char) :
    regexReplace hexPair f (c :: d :: s) = f [c,d] ++ regexReplace hexPair f s := by
  have hword : List.Forall₂ (fun (p : Char → Bool) c => p c = true) [isHexDigit,isHexDigit] [c,d] :=
    .cons hc (.cons hd .nil)
  exact regexReplace_word (by simp) hword

theorem hexPair_directive (s : List Char) :
    regexReplace hexPair f (text ".byte " ++ s) = text ".byte " ++ regexReplace hexPair f s := by
  change regexReplace hexPair f ('.' :: 'b' :: 'y' :: 't' :: 'e' :: ' ' :: s) = _
  -- no two letters of the directive are hexadecimal digits
  rw [regexReplace_cons rfl,regexReplace_cons rfl,regexReplace_cons rfl,regexReplace_cons rfl,
    regexReplace_cons rfl,regexReplace_cons rfl]
  rfl

theorem lastComma_comma (s : List Char) :
    regexReplace lastComma f (',' :: ' ' :: '\n' :: s) = f [',',' ','\n'] ++ regexReplace lastComma f s := by
  have hword : List.Forall₂ (fun (p : Char → Bool) c => p c = true)
      [(· == ','),(· == ' '),(· == '\n')] [',',' ','\n'] := .cons rfl (.cons rfl (.cons rfl .nil))
  exact regexReplace_word (by simp) hword

theorem lastComma_append (hw : ',' ∉ w) (s : List Char) :
    regexReplace lastComma f (w ++ s) = w ++ regexReplace lastComma f s := by
  apply regexReplace_append
  intro u c v hsplit
  have hmem : c ∈ w := by rw [hsplit]; simp
  have hcomma : (c == ',') = false := beq_false_of_ne fun h => hw (h ▸ hmem)
  rw [lastComma,List.map_cons,List.cons_append,matchLength,hcomma]
  rfl

end Patterns

section Bytes

variable {row : List UInt8}

theorem byteExpressionOf_append (w s : List Char) :
    byteExpressionOf w ++ s = text ".byte " ++ (w ++ '\n' :: s) := by
  rw [byteExpressionOf,List.append_assoc,List.append_assoc,List.singleton_append]

theorem fileReadHex_cons (b : UInt8) (data : List UInt8) :
    fileReadHex (b :: data) = (b.toNat / 16).digitChar :: (b.toNat % 16).digitChar :: fileReadHex data := rfl

theorem fileReadHex_append (data data' : List UInt8) :
    fileReadHex (data ++ data') = fileReadHex data ++ fileReadHex data' := List.flatMap_append

theorem fileReadHex_length (data : List UInt8) : (fileReadHex data).length = 2 * data.length := by
  induction data with
  | nil => rfl
  | cons b data ih =>
    rw [fileReadHex_cons,List.length_cons,List.length_cons,ih,List.length_cons]
    omega

theorem isHexDigit_digitChar : ∀ n < 16, isHexDigit n.digitChar = true := by decide

theorem fileReadHex_hex (data : List UInt8) : ∀ c ∈ fileReadHex data, isHexDigit c = true := by
  intro c hc
  obtain ⟨b,_,hb⟩ := List.mem_flatMap.mp hc
  have hlt := b.toNat_lt
  simp only [List.mem_cons,List.not_mem_nil,or_false] at hb
  rcases hb with rfl | rfl <;> exact isHexDigit_digitChar _ (by omega)

theorem exists_rows (data : List UInt8) : ∃ (rows : List (List UInt8)) (last : List UInt8),
    data = rows.flatten ++ last ∧ (∀ row ∈ rows, row.length = 16) ∧ last.length < 16 := by
  induction hn : data.length using Nat.strongRecOn generalizing data with
  | ind n ih =>
    by_cases hshort : data.length < 16
    · exact ⟨[],data,rfl,by simp,hshort⟩
    · have hdrop : (data.drop 16).length < n := by
        rw [List.length_drop]
        omega
      obtain ⟨rows,last,hdata,hrows,hlast⟩ := ih _ hdrop (data.drop 16) rfl
      refine ⟨data.take 16 :: rows,last,?_,?_,hlast⟩
      · rw [List.flatten_cons,List.append_assoc,← hdata,List.take_append_drop]
      · intro row hrow
        rcases List.mem_cons.mp hrow with rfl | hrow
        · rw [List.length_take]
          omega
        · exact hrows row hrow

theorem replace_rows {rows : List (List UInt8)} {last : List UInt8}
    (hrows : ∀ row ∈ rows, row.length = 16) (hlast : last.length < 16) :
    regexReplace anyLine byteExpressionOf
        (fileReadHex (rows.flatten ++ last)) =
      (rows.flatMap fun row => byteExpressionOf (fileReadHex row)) ++ fileReadHex last := by
  induction rows with
  | nil =>
    apply anyLine_short
    rw [List.flatten_nil,List.nil_append,fileReadHex_length]
    omega
  | cons row rows ih =>
    obtain ⟨hrow,hrows⟩ := List.forall_mem_cons.mp hrows
    have hlength : (fileReadHex row).length = 32 := by rw [fileReadHex_length,hrow]
    rw [List.flatten_cons,List.append_assoc,fileReadHex_append,anyLine_word hlength,ih hrows,
      List.flatMap_cons,List.append_assoc]

theorem replace_last {rows : List (List UInt8)} {last : List UInt8} :
    regexReplace lastLine byteExpressionOf
        ((rows.flatMap fun row => byteExpressionOf (fileReadHex row)) ++ fileReadHex last) =
      (rows ++ if last = [] then [] else [last]).flatMap fun row => byteExpressionOf (fileReadHex row) := by
  induction rows with
  | nil =>
    by_cases hlast : last = []
    · rw [if_pos hlast,hlast]
      rfl
    · have hne : fileReadHex last ≠ [] := by
        intro h
        have hlength := fileReadHex_length last
        rw [h] at hlength
        exact hlast (List.length_eq_zero_iff.mp (by simpa using hlength.symm))
      have hline : '\n' ∉ fileReadHex last := fun h => absurd (fileReadHex_hex last _ h) (by decide)
      rw [if_neg hlast,List.flatMap_nil,List.nil_append,lastLine_run hne hline,List.nil_append,
        List.flatMap_singleton]
  | cons row rows ih =>
    rw [List.flatMap_cons,List.append_assoc,byteExpressionOf_append,← List.append_assoc,
      lastLine_append,ih,List.append_assoc,← byteExpressionOf_append,List.cons_append,List.flatMap_cons]

theorem replace_pair (b : UInt8) (s : List Char) :
    regexReplace hexPair hexByteOf
        ((b.toNat / 16).digitChar :: (b.toNat % 16).digitChar :: s) =
      byteText b ++ text ", " ++ regexReplace hexPair hexByteOf s := by
  have hlt := b.toNat_lt
  exact hexPair_pair (isHexDigit_digitChar _ (by omega)) (isHexDigit_digitChar _ (by omega)) s

theorem replace_pairs (rows : List (List UInt8)) :
    regexReplace hexPair hexByteOf
        (rows.flatMap fun row => byteExpressionOf (fileReadHex row)) =
      rows.flatMap fun row => byteExpressionOf (row.flatMap fun b => byteText b ++ text ", ") := by
  have hrow : ∀ (row : List UInt8) (s : List Char),
      regexReplace hexPair hexByteOf
          (fileReadHex row ++ '\n' :: s) =
        (row.flatMap fun b => byteText b ++ text ", ") ++ '\n' :: regexReplace hexPair hexByteOf s := by
    intro row s
    induction row with
    | nil => exact regexReplace_cons rfl
    | cons b row ih =>
      rw [fileReadHex_cons,List.cons_append,List.cons_append,replace_pair,ih,List.flatMap_cons,
        List.append_assoc _ _ ('\n' :: _)]
  induction rows with
  | nil => rfl
  | cons row rows ih =>
    rw [List.flatMap_cons,byteExpressionOf_append,hexPair_directive,hrow,ih,← byteExpressionOf_append,
      List.flatMap_cons]

theorem trim_row (hrow : row ≠ []) (s : List Char) :
    regexReplace lastComma (fun _ => ['\n'])
        ((row.flatMap fun b => byteText b ++ text ", ") ++ '\n' :: s) =
      bytesText row ++ '\n' :: regexReplace lastComma (fun _ => ['\n']) s := by
  have hbyte : ∀ (b : UInt8) (s : List Char), regexReplace lastComma (fun _ => ['\n']) (byteText b ++ s) =
      byteText b ++ regexReplace lastComma (fun _ => ['\n']) s :=
    fun b s => lastComma_append (comma_notMem_byteText b) s
  induction row with
  | nil => exact absurd rfl hrow
  | cons b row ih =>
    cases row with
    | nil =>
      rw [List.flatMap_singleton,List.append_assoc,hbyte]
      change byteText b ++ regexReplace lastComma (fun _ => ['\n']) (',' :: ' ' :: '\n' :: s) = _
      rw [lastComma_comma]
      rfl
    | cons c row =>
      have hnext : ((c :: row).flatMap fun b => byteText b ++ text ", ") ++ '\n' :: s =
          '0' :: (((c :: row).flatMap fun b => byteText b ++ text ", ") ++ '\n' :: s).tail := rfl
      have htail := ih (List.cons_ne_nil c row)
      rw [List.flatMap_cons,List.append_assoc,List.append_assoc,hbyte]
      change byteText b ++ regexReplace lastComma (fun _ => ['\n']) (',' :: ' ' :: (_ ++ '\n' :: s)) = _
      rw [hnext,regexReplace_cons rfl,regexReplace_cons rfl,← hnext,htail,bytesText,
        List.append_assoc,List.append_assoc]
      rfl

theorem trim_rows {rows : List (List UInt8)} (hrows : ∀ row ∈ rows, row ≠ []) :
    regexReplace lastComma (fun _ => ['\n'])
        (rows.flatMap fun row => byteExpressionOf (row.flatMap fun b => byteText b ++ text ", ")) =
      unlines (rows.map fun row => text ".byte " ++ bytesText row) := by
  induction rows with
  | nil => rfl
  | cons row rows ih =>
    obtain ⟨hrow,hrows⟩ := List.forall_mem_cons.mp hrows
    rw [List.flatMap_cons,byteExpressionOf_append,lastComma_append (by decide),trim_row hrow,ih hrows]
    simp only [unlines,List.map_cons,List.flatMap_cons,List.append_assoc]
    rfl

/-- What becomes of the raw hex bytes: lines that list all the bytes in their order. -/
theorem byteExpressions_lines (data : List UInt8) : ∃ rows : List (List UInt8),
    data = rows.flatten ∧ (∀ row ∈ rows, row ≠ []) ∧
      byteExpressions (fileReadHex data) = unlines (rows.map fun row => text ".byte " ++ bytesText row) := by
  obtain ⟨rows,last,rfl,hrows,hlast⟩ := exists_rows data
  have hne : ∀ row ∈ rows ++ (if last = [] then [] else [last]), row ≠ [] := by
    intro row hrow
    rcases List.mem_append.mp hrow with hrow | hrow
    · intro h
      have hlength := hrows row hrow
      rw [h] at hlength
      cases hlength
    · by_cases h : last = []
      · rw [if_pos h] at hrow
        cases hrow
      · rw [if_neg h] at hrow
        rwa [List.mem_singleton.mp hrow]
  refine ⟨_,?_,hne,?_⟩
  · by_cases h : last = []
    · simp [h]
    · simp [h]
  · rw [byteExpressions,replace_rows hrows hlast,replace_last,replace_pairs,trim_rows hne]

end Bytes

section Variables

variable {value : List Char}

theorem cmakeFalse_long (hlength : 8 < value.length) (hlast : value.getLast? ≠ some 'D') :
    cmakeFalse value = false := by
  have hconstants : ∀ constant ∈ [[],text "0",text "OFF",text "NO",text "FALSE",text "N",text "IGNORE",
      text "NOTFOUND"], constant.length ≤ 8 := by decide
  rw [cmakeFalse,Bool.or_eq_false_iff]
  constructor
  · apply Bool.eq_false_iff.mpr
    intro hmem
    have hshort := hconstants _ (List.contains_iff_mem.mp hmem)
    rw [List.length_map] at hshort
    omega
  · apply Bool.eq_false_iff.mpr
    intro hsuffix
    obtain ⟨front,rfl⟩ := List.isSuffixOf_iff_suffix.mp hsuffix
    exact hlast (by simp [text])

theorem dataFileEmbedAsm_ok {job : EmbedJob} (hdata : cmakeFalse job.dataFile = false)
    (hsource : cmakeFalse job.sourceFile = false) : dataFileEmbedAsm job = .ok job.source := by
  rw [dataFileEmbedAsm,hdata,hsource]
  rfl

end Variables

section Identifiers

variable {str : List Char} {comment : Option (List Char)}

theorem makeCIdentifier_letters (str : List Char) :
    ∀ c ∈ makeCIdentifier str, c.isAlphanum = true ∨ c = '_' := by
  have hmap : ∀ c ∈ str.map fun c => if c.isAlphanum then c else '_', c.isAlphanum = true ∨ c = '_' := by
    intro c hc
    obtain ⟨d,_,rfl⟩ := List.mem_map.mp hc
    split_ifs with hd
    · exact .inl hd
    · exact .inr rfl
  intro c hc
  rw [makeCIdentifier] at hc
  split_ifs at hc
  · rcases List.mem_cons.mp hc with rfl | hc
    · exact .inr rfl
    · exact hmap c hc
  · exact hmap c hc

theorem slash_notMem_makeCIdentifier (str : List Char) : '/' ∉ makeCIdentifier str := by
  intro h
  rcases makeCIdentifier_letters str _ h with h | h
  · exact absurd h (by decide)
  · exact absurd h (by decide)

theorem newline_notMem_makeCIdentifier (str : List Char) : '\n' ∉ makeCIdentifier str := by
  intro h
  rcases makeCIdentifier_letters str _ h with h | h
  · exact absurd h (by decide)
  · exact absurd h (by decide)

theorem asmSymbol_makeCIdentifier (h : str ≠ []) : asmSymbol (makeCIdentifier str) ≠ none := by
  have hletters : (makeCIdentifier str).all isSymbolLetter = true := by
    apply List.all_eq_true.mpr
    intro c hc
    rcases makeCIdentifier_letters str c hc with hc | rfl
    · simp [isSymbolLetter,hc]
    · rfl
  cases str with
  | nil => exact absurd rfl h
  | cons c str =>
    have hfirst : ¬((makeCIdentifier (c :: str)).head?.any Char.isDigit = true) := by
      rw [makeCIdentifier]
      split_ifs with hdigit
      · simp
      · have hdigit : c.isDigit = false := by simpa using hdigit
        by_cases hc : c.isAlphanum = true
        · simp [hc,hdigit]
        · simp [hc]
    have hne : makeCIdentifier (c :: str) ≠ [] := by
      rw [makeCIdentifier]
      split_ifs <;> simp
    rw [asmSymbol,if_pos ⟨hne,hletters,hfirst⟩]
    simp

/-- What `make_and_append_identifier` appends. -/
def identifierText (str : List Char) (comment : Option (List Char)) : List Char :=
  text "\n.global " ++ makeCIdentifier str ++ ['\n'] ++ makeCIdentifier str ++ text ":" ++
    (comment.elim [] fun comment => text " /* " ++ comment ++ text " */") ++ ['\n']

theorem makeAndAppendIdentifier_eq (file str : List Char) (comment : Option (List Char)) :
    makeAndAppendIdentifier file str comment = file ++ identifierText str comment := by
  cases comment with
  | none => simp [makeAndAppendIdentifier,append,appendLine,identifierText]; rfl
  | some comment => simp [makeAndAppendIdentifier,append,appendLine,identifierText]; rfl

/-- The same with the comment gone. -/
def identifierLines (str : List Char) (comment : Option (List Char)) : List (List Char) :=
  [[],text ".global " ++ makeCIdentifier str,
    makeCIdentifier str ++ text ":" ++ comment.elim [] fun _ => [' ',' ']]

theorem stripComments_identifier {s t : List Char}
    (hcomment : ∀ c ∈ comment, ¬['*','/'] <:+: ' ' :: c ++ [' ']) (hs : stripComments false s = some t) :
    stripComments false (identifierText str comment ++ s) =
      some (unlines (identifierLines str comment) ++ t) := by
  have hslash := slash_notMem_makeCIdentifier str
  cases comment with
  | none =>
    rw [stripComments_text _ hs]
    · simp [identifierText,identifierLines,unlines]
      rfl
    · simp [identifierText,hslash]
      decide
  | some c =>
    have hline : stripComments false (['\n'] ++ s) = some (['\n'] ++ t) :=
      stripComments_text (by decide) hs
    have hbody := stripComments_comment (w := text "\n.global " ++ makeCIdentifier str ++ ['\n'] ++
      makeCIdentifier str ++ text ": ") (by simp [hslash]; decide) (hcomment c rfl) hline
    have htext : identifierText str (some c) ++ s = text "\n.global " ++ makeCIdentifier str ++
        ['\n'] ++ makeCIdentifier str ++ text ": " ++ text "/*" ++ (' ' :: c ++ [' ']) ++
        text "*/" ++ (['\n'] ++ s) := by
      simp [identifierText]
      rfl
    rw [htext,hbody]
    simp [identifierLines,unlines]
    rfl

end Identifiers

section File

variable {job : EmbedJob}

def headerText (job : EmbedJob) : List Char :=
  text "/*" ++ (text " * Data converted from " ++ (job.dataFile ++ '\n' ::
    ((if job.isText then text " * (null byte appended)\n" else []) ++ text " */\n")))

theorem stripComments_header {s t : List Char} (hpath : ¬['*','/'] <:+: job.dataFile)
    (hs : stripComments false s = some t) :
    stripComments false (headerText job ++ s) = some (' ' :: '\n' :: t) := by
  have hend : stripComments true ((if job.isText then text " * (null byte appended)\n" else []) ++
      (text " */\n" ++ s)) = some ('\n' :: t) := by
    have hline : stripComments true (text " */\n" ++ s) = some ('\n' :: t) := by
      change (stripComments false s).map ('\n' :: ·) = _
      rw [hs]
      rfl
    cases job.isText with
    | false => exact hline
    | true => exact (stripComments_inside (by decide) (.inl (by decide))).trans hline
  have hbody : stripComments true (text " * Data converted from " ++ (job.dataFile ++ '\n' ::
      ((if job.isText then text " * (null byte appended)\n" else []) ++ (text " */\n" ++ s)))) =
      some ('\n' :: t) := by
    rw [stripComments_inside (by decide) (.inl (by decide)),stripComments_inside hpath (.inr (by simp))]
    exact hend
  rw [headerText,List.append_assoc,List.append_assoc,List.append_assoc,List.cons_append,List.append_assoc]
  exact congrArg (Option.map (' ' :: ·)) hbody

def lengthComment (job : EmbedJob) : Option (List Char) :=
  if job.isText then some (text "not including null byte") else none

/-- The lines from the first label on, once the comments are gone. -/
def symbolLines (job : EmbedJob) (rows : List (List UInt8)) : List (List Char) :=
  identifierLines job.varname none ++
    (identifierLines (text "_binary_" ++ job.varname ++ text "_start") (some (text "for objcopy compatibility")) ++
    ((rows.map fun row => text ".byte " ++ bytesText row) ++
    (identifierLines (text "_binary_" ++ job.varname ++ text "_end") (some (text "for objcopy compatibility")) ++
    ([] :: (identifierLines (job.varname ++ text "_length") (lengthComment job) ++
    [text ".long " ++ Nat.toDigits 10 job.data.length])))))

/-- The lines that come before. -/
def openingLines : List (List Char) :=
  [text ".data",text "#if !defined (__APPLE__) && !defined (__linux__)",
    text ".section .rodata.embedded",text "#endif",text ".align 16"]

theorem EmbedJob.source_eq (job : EmbedJob) : job.source =
    headerText job ++ (unlines openingLines ++
      (identifierText job.varname none ++
      (identifierText (text "_binary_" ++ job.varname ++ text "_start")
        (some (text "for objcopy compatibility")) ++
      (byteExpressions (fileReadHex job.stored) ++
      (identifierText (text "_binary_" ++ job.varname ++ text "_end")
        (some (text "for objcopy compatibility")) ++
      (['\n'] ++ (identifierText (job.varname ++ text "_length") (lengthComment job) ++
      (text ".long " ++ Nat.toDigits 10 job.data.length ++ ['\n'])))))))) := by
  have hstored : fileReadHex job.stored =
      if job.isText then fileReadHex job.data ++ text "00" else fileReadHex job.data := by
    rw [EmbedJob.stored]
    split_ifs
    · rw [fileReadHex_append]
      rfl
    · rfl
  have hlength : (fileReadHex job.data).length / 2 = job.data.length := by
    rw [fileReadHex_length]
    omega
  rw [hstored,EmbedJob.source,hlength]
  have hnull : text " * (null byte appended)\n" = text " * (null byte appended)" ++ ['\n'] := rfl
  have hclose : text " */\n" = text " */" ++ ['\n'] := rfl
  cases htext : job.isText <;>
    simp only [makeAndAppendIdentifier_eq,appendLine,append,headerText,lengthComment,openingLines,htext,hnull,hclose,unlines,
      List.flatMap_cons,List.flatMap_nil,List.append_assoc,List.cons_append,List.nil_append,
      List.append_nil,Bool.false_eq_true,if_true,if_false]

theorem notMem_byteLine {c : Char} (hc : c.isAlphanum = false) (hother : c ∉ text ".byte " ++ text ", ")
    (row : List UInt8) : c ∉ text ".byte " ++ bytesText row := by
  intro h
  rcases List.mem_append.mp h with h | h
  · exact hother (List.mem_append_left _ h)
  · rcases bytesText_letters row c h with h | rfl | rfl
    · rw [hc] at h
      cases h
    · exact hother (by decide)
    · exact hother (by decide)

theorem slash_notMem_rows (rows : List (List UInt8)) :
    '/' ∉ unlines (rows.map fun row => text ".byte " ++ bytesText row) := by
  intro h
  obtain ⟨line,hline,hslash⟩ := List.mem_flatMap.mp h
  obtain ⟨row,_,rfl⟩ := List.mem_map.mp hline
  rcases List.mem_append.mp hslash with hslash | hslash
  · exact notMem_byteLine (by decide) (by decide) row hslash
  · exact absurd hslash (by decide)

theorem stripComments_embedAsm {rows : List (List UInt8)} (hpath : ¬['*','/'] <:+: job.dataFile)
    (hrows : byteExpressions (fileReadHex job.stored) =
      unlines (rows.map fun row => text ".byte " ++ bytesText row)) :
    stripComments false job.source =
      some (unlines ([' '] :: openingLines ++ symbolLines job rows)) := by
  have hlength : stripComments false (text ".long " ++ Nat.toDigits 10 job.data.length ++ ['\n'] ++ []) =
      some (text ".long " ++ Nat.toDigits 10 job.data.length ++ ['\n'] ++ []) := by
    apply stripComments_text _ rfl
    have hdigits : '/' ∉ Nat.toDigits 10 job.data.length := fun h =>
      absurd (Nat.isDigit_of_mem_toDigits (by decide) (by decide) h) (by decide)
    simp [hdigits]
    decide
  have hcomment : ∀ c ∈ lengthComment job, ¬['*','/'] <:+: ' ' :: c ++ [' '] := by
    intro c hc
    rw [lengthComment] at hc
    split_ifs at hc
    · obtain rfl := Option.some.inj hc
      decide
    · cases hc
  have hobjcopy : ∀ c ∈ some (text "for objcopy compatibility"), ¬['*','/'] <:+: ' ' :: c ++ [' '] := by
    intro c hc
    obtain rfl := Option.some.inj hc
    decide
  rw [List.append_nil] at hlength
  rw [EmbedJob.source_eq,hrows]
  rw [stripComments_header hpath (stripComments_text (by decide) (stripComments_identifier (by simp)
    (stripComments_identifier hobjcopy (stripComments_text (slash_notMem_rows rows)
    (stripComments_identifier hobjcopy (stripComments_text (w := ['\n']) (by decide)
    (stripComments_identifier hcomment hlength)))))))]
  simp [symbolLines,unlines]

end File

end Esp32Ipc.Detect
