import Mathlib.Data.List.DropRight
import Mathlib.Data.UInt
import Mathlib.Logic.Function.Basic

/-!
# Assembling a listing of data

What the C preprocessor and the assembler make of a file of labels and data directives. The condition
of an `#if` and the operand of `.align` mean what they mean on the target.
-/

namespace Esp32Ipc.Framework

/-- The letters of a literal. -/
def text (s : String) : List Char := s.toList

/-- Outside a comment and inside one; `none` if the last comment does not end. -/
def stripComments : Bool → List Char → Option (List Char)
  | false, [] => some []
  | true, [] => none
  | false, '/' :: '*' :: s => (stripComments true s).map (' ' :: ·)
  | false, c :: s => (stripComments false s).map (c :: ·)
  | true, '*' :: '/' :: s => stripComments false s
  | true, _ :: s => stripComments true s

/-- The lines kept, with the conditions they stand under. -/
def preprocess (holds : List Char → Bool) : List Bool → List (List Char) → List (List Char)
  | _, [] => []
  | taken, line :: lines =>
    match line.dropPrefix? (text "#if ") with
    | some condition => preprocess holds (holds condition :: taken) lines
    | none =>
      if line = text "#endif" then preprocess holds taken.tail lines
      else if taken.all id then line :: preprocess holds taken lines
      else preprocess holds taken lines

inductive AsmLine where
  | blank
  | sectionName (name : List Char)
  | align (n : Nat)
  | global (symbol : List Char)
  | label (symbol : List Char)
  | bytes (values : List UInt8)
  | long (value : Nat)
  deriving DecidableEq, Repr

def hexDigitValue (c : Char) : Option Nat :=
  if c.isDigit then some (c.toNat - '0'.toNat)
  else if 'a' ≤ c ∧ c ≤ 'f' then some (c.toNat - 'a'.toNat + 10)
  else if 'A' ≤ c ∧ c ≤ 'F' then some (c.toNat - 'A'.toNat + 10)
  else none

/-- `0x` and hexadecimal digits, or a decimal number. Octal numbers are not read. -/
def asmNumber : List Char → Option Nat
  | '0' :: 'x' :: digits =>
    if digits = [] then none else
      (digits.mapM hexDigitValue).map fun values => values.foldl (fun n d => 16 * n + d) 0
  | ['0'] => some 0
  | digits =>
    if digits = [] ∨ digits.head? = some '0' then none
    else if digits.all Char.isDigit then some (Nat.ofDigitChars 10 digits 0)
    else none

def isBlank (c : Char) : Bool := c == ' ' || c == '\t'

def trimBlanks (s : List Char) : List Char := (s.dropWhile isBlank).rdropWhile isBlank

def isSymbolLetter (c : Char) : Bool := c.isAlphanum || c == '_' || c == '.' || c == '$'

def asmSymbol (s : List Char) : Option (List Char) :=
  if s ≠ [] ∧ s.all isSymbolLetter ∧ ¬(s.head?.any Char.isDigit) then some s else none

def asmDirective (word operand : List Char) : Option AsmLine :=
  if word = text ".data" then some (.sectionName (text ".data"))
  else if word = text ".section" then some (.sectionName operand)
  else if word = text ".align" then (asmNumber operand).map .align
  else if word = text ".global" then (asmSymbol operand).map .global
  else if word = text ".byte" then
    ((operand.splitOn ',').mapM fun value => asmNumber (trimBlanks value)).map fun values =>
      .bytes (values.map UInt8.ofNat)
  else if word = text ".long" then (asmNumber operand).map .long
  else none

def asmLine (line : List Char) : Option AsmLine :=
  let line := trimBlanks line
  let word := line.takeWhile (· ≠ ' ')
  if line = [] then some .blank
  else if line.getLast? = some ':' then (asmSymbol line.dropLast).map .label
  else asmDirective word (line.drop (word.length + 1))

/-- Sections with what is in them, and the symbols with their section and offset. -/
structure AsmObject where
  current : List Char
  content : List Char → List UInt8
  aligned : List Char → Nat
  symbols : List (List Char × List Char × Nat)
  globals : List (List Char)

def AsmObject.empty : AsmObject where
  current := text ".text"
  content := fun _ => []
  aligned := fun _ => 1
  symbols := []
  globals := []

namespace AsmObject

def here (o : AsmObject) : Nat := (o.content o.current).length

def put (o : AsmObject) (values : List UInt8) : AsmObject :=
  { o with content := Function.update o.content o.current (o.content o.current ++ values) }

/-- The four bytes of a word, low byte first. -/
def wordBytes (value : Nat) : List UInt8 :=
  [0,8,16,24].map fun shift => UInt8.ofNat (value / 2 ^ shift)

/-- `alignment` is what the operand of `.align` stands for. -/
def step (alignment : Nat → Nat) (o : AsmObject) : AsmLine → Option AsmObject
  | .blank => some o
  | .sectionName name => some { o with current := name }
  | .align n =>
    let o := o.put (List.replicate ((alignment n - o.here % alignment n) % alignment n) 0)
    some { o with
      aligned := Function.update o.aligned o.current (max (o.aligned o.current) (alignment n)) }
  | .global symbol => some { o with globals := o.globals ++ [symbol] }
  | .label symbol =>
    if symbol ∈ o.symbols.map Prod.fst then none
    else some { o with symbols := o.symbols ++ [(symbol,o.current,o.here)] }
  | .bytes values => some (o.put values)
  | .long value => some (o.put (wordBytes value))

/-- The section and the offset a symbol stands for. -/
def find (o : AsmObject) (symbol : List Char) : Option (List Char × Nat) :=
  (o.symbols.find? fun s => s.1 = symbol).map Prod.snd

/-- What lies from one symbol up to another one of the same section. -/
def between (o : AsmObject) (first last : List Char) : Option (List UInt8) :=
  match o.find first, o.find last with
  | some (sec,a), some (sec',b) =>
    if sec = sec' ∧ a ≤ b then some (((o.content sec).drop a).take (b - a)) else none
  | _, _ => none

end AsmObject

def assembleLines (alignment : Nat → Nat) (o : AsmObject) (lines : List (List Char)) : Option AsmObject :=
  lines.foldlM (fun o line => (asmLine line).bind (o.step alignment)) o

def assemble (holds : List Char → Bool) (alignment : Nat → Nat) (file : List Char) : Option AsmObject :=
  (stripComments false file).bind fun text =>
    assembleLines alignment .empty (preprocess holds [] (text.splitOn '\n'))

section Text

variable {s w : List Char} {c : Char}

theorem stripComments_plain (h : '/' ∉ w) (s : List Char) :
    stripComments false (w ++ s) = (stripComments false s).map (w ++ ·) := by
  induction w with
  | nil => simp
  | cons c w ih =>
    obtain ⟨hc,hw⟩ : '/' ≠ c ∧ '/' ∉ w := by simpa using h
    rw [List.cons_append,stripComments,ih hw,Option.map_map]
    · rfl
    · rintro rest rfl
      exact absurd rfl hc

theorem stripComments_inside (h : ¬['*','/'] <:+: w)
    (hs : w.getLast? ≠ some '*' ∨ s.head? ≠ some '/') :
    stripComments true (w ++ s) = stripComments true s := by
  induction w with
  | nil => rfl
  | cons c w ih =>
    have hw : ¬['*','/'] <:+: w := fun hpart => h (hpart.trans (List.suffix_cons c w).isInfix)
    have hlast : w.getLast? ≠ some '*' ∨ s.head? ≠ some '/' := by
      cases w with
      | nil => exact .inl (by simp)
      | cons d w => simpa using hs
    rw [List.cons_append,stripComments,ih hw hlast]
    rintro rest rfl hrest
    cases w with
    | nil =>
      rw [List.nil_append] at hrest
      rw [hrest] at hs
      exact hs.elim (fun h => h rfl) fun h => h rfl
    | cons d w =>
      obtain ⟨rfl,_⟩ := List.cons.inj hrest
      exact h ⟨[],w,rfl⟩

theorem stripComments_comment {body t : List Char} (hw : '/' ∉ w) (hbody : ¬['*','/'] <:+: body)
    (hs : stripComments false s = some t) :
    stripComments false (w ++ text "/*" ++ body ++ text "*/" ++ s) = some (w ++ ' ' :: t) := by
  have hend : (text "*/" ++ s).head? ≠ some '/' := show some '*' ≠ some '/' by decide
  rw [List.append_assoc,List.append_assoc,List.append_assoc,stripComments_plain hw]
  change (Option.map (' ' :: ·) (stripComments true (body ++ (text "*/" ++ s)))).map (w ++ ·) = _
  rw [stripComments_inside hbody (.inr hend)]
  change (Option.map (' ' :: ·) (stripComments false s)).map (w ++ ·) = _
  rw [hs]
  rfl

theorem stripComments_text {t : List Char} (hw : '/' ∉ w) (hs : stripComments false s = some t) :
    stripComments false (w ++ s) = some (w ++ t) := by
  rw [stripComments_plain hw,hs]
  rfl

def unlines (lines : List (List Char)) : List Char := lines.flatMap (· ++ ['\n'])

theorem splitOn_unlines {lines : List (List Char)} (h : ∀ line ∈ lines, '\n' ∉ line) :
    (unlines lines).splitOn '\n' = lines ++ [[]] := by
  induction lines with
  | nil => rfl
  | cons line lines ih =>
    obtain ⟨hline,hlines⟩ := List.forall_mem_cons.mp h
    rw [unlines,List.flatMap_cons,List.append_assoc,List.singleton_append,
      List.splitOn_append_cons_self_of_not_mem hline]
    exact congrArg (line :: ·) (ih hlines)

theorem preprocess_append {holds : List Char → Bool} {taken : List Bool} {lines : List (List Char)}
    (htaken : taken.all id = true) (hlines : ∀ line ∈ lines, line.head? ≠ some '#')
    (rest : List (List Char)) :
    preprocess holds taken (lines ++ rest) = lines ++ preprocess holds taken rest := by
  induction lines with
  | nil => rfl
  | cons line lines ih =>
    obtain ⟨hline,hlines⟩ := List.forall_mem_cons.mp hlines
    have hcondition : line.dropPrefix? (text "#if ") = none := by
      cases line with
      | nil => rfl
      | cons c line =>
        have hc : (c == '#') = false := beq_false_of_ne fun h => hline (congrArg some h)
        simp [List.dropPrefix?,text,hc]
    have hend : line ≠ text "#endif" := by
      rintro rfl
      exact hline rfl
    rw [List.cons_append,preprocess,hcondition]
    dsimp only
    rw [if_neg hend,if_pos htaken,ih hlines]
    rfl

theorem trimBlanks_self (hhead : ∀ c, s.head? = some c → isBlank c = false)
    (hlast : ∀ c, s.getLast? = some c → isBlank c = false) : trimBlanks s = s := by
  have hdrop : s.dropWhile isBlank = s := by
    cases s with
    | nil => rfl
    | cons c s => rw [List.dropWhile_cons_of_neg (by simpa using hhead c rfl)]
  rw [trimBlanks,hdrop,List.rdropWhile_eq_self_iff]
  intro hs
  have hblank := hlast _ (List.getLast?_eq_some_getLast hs)
  simpa using hblank

theorem trimBlanks_concat_blank (hc : isBlank c = true) (hs : s.dropWhile isBlank ≠ []) :
    trimBlanks (s ++ [c]) = trimBlanks s := by
  rw [trimBlanks,trimBlanks,List.dropWhile_append,if_neg (by simpa using hs)]
  exact List.rdropWhile_concat_pos _ _ _ hc

end Text

section Lines

variable {word operand symbol : List Char} {c : Char}

theorem asmLine_directive (hword : word.any isBlank = false) (hname : word ≠ [])
    (hlast : ∀ c, operand.getLast? = some c → isBlank c = false ∧ c ≠ ':') (hoperand : operand ≠ []) :
    asmLine (word ++ ' ' :: operand) = asmDirective word operand := by
  have hletters : ∀ c ∈ word, isBlank c = false := by simpa using hword
  have hend : (word ++ ' ' :: operand).getLast? = operand.getLast? := by
    rw [List.getLast?_append,List.getLast?_cons,List.getLast?_eq_some_getLast hoperand]
    rfl
  have htrim : trimBlanks (word ++ ' ' :: operand) = word ++ ' ' :: operand := by
    apply trimBlanks_self
    · intro c hc
      cases word with
      | nil => exact absurd rfl hname
      | cons d word =>
        obtain rfl := Option.some.inj hc
        exact hletters d List.mem_cons_self
    · intro c hc
      rw [hend] at hc
      exact (hlast c hc).1
  have htake : (word ++ ' ' :: operand).takeWhile (· ≠ ' ') = word := by
    rw [List.takeWhile_append_of_pos]
    · simp
    · intro c hc
      have hblank := hletters c hc
      simp only [isBlank,Bool.or_eq_false_iff,beq_eq_false_iff_ne] at hblank
      simpa using hblank.1
  have hdrop : (word ++ ' ' :: operand).drop (word.length + 1) = operand := by
    rw [← List.drop_drop,List.drop_left]
    rfl
  have hcolon : operand.getLast? ≠ some ':' := fun h => (hlast _ h).2 rfl
  rw [asmLine,htrim,htake,hdrop,hend,if_neg (by simp),if_neg hcolon]

theorem symbolLetter_plain (h : isSymbolLetter c = true) : isBlank c = false ∧ c ≠ ':' := by
  constructor
  · cases hblank : isBlank c with
    | false => rfl
    | true =>
      rw [isBlank,Bool.or_eq_true,beq_iff_eq,beq_iff_eq] at hblank
      rcases hblank with rfl | rfl <;> exact absurd h (by decide)
  · rintro rfl
    exact absurd h (by decide)

theorem alphanum_plain (h : c.isAlphanum = true) : isBlank c = false ∧ c ≠ ':' :=
  symbolLetter_plain (by simp [isSymbolLetter,h])

theorem asmLine_concat_blank {line : List Char} (hc : isBlank c = true)
    (hline : line.dropWhile isBlank ≠ []) : asmLine (line ++ [c]) = asmLine line := by
  rw [asmLine,asmLine,trimBlanks_concat_blank hc hline]

theorem asmSymbol_self (h : asmSymbol symbol ≠ none) : asmSymbol symbol = some symbol := by
  rw [asmSymbol] at h ⊢
  split_ifs with hsymbol
  · rfl
  · rw [if_neg hsymbol] at h
    exact absurd rfl h

theorem asmSymbol_letters (h : asmSymbol symbol ≠ none) :
    symbol ≠ [] ∧ ∀ c ∈ symbol, isBlank c = false ∧ c ≠ ':' := by
  rw [asmSymbol] at h
  split_ifs at h with hsymbol
  · exact ⟨hsymbol.1,fun c hc => symbolLetter_plain (List.all_eq_true.mp hsymbol.2.1 c hc)⟩
  · exact absurd rfl h

theorem asmLine_label (h : asmSymbol symbol ≠ none) :
    asmLine (symbol ++ [':']) = some (.label symbol) := by
  obtain ⟨hne,hletters⟩ := asmSymbol_letters h
  have htrim : trimBlanks (symbol ++ [':']) = symbol ++ [':'] := by
    apply trimBlanks_self
    · intro c hc
      cases symbol with
      | nil => exact absurd rfl hne
      | cons d symbol =>
        obtain rfl := Option.some.inj hc
        exact (hletters d List.mem_cons_self).1
    · intro c hc
      rw [List.getLast?_concat] at hc
      obtain rfl := Option.some.inj hc
      rfl
  rw [asmLine,htrim,if_neg (by simp),List.getLast?_concat,if_pos rfl,List.dropLast_concat,asmSymbol_self h]
  rfl

theorem asmLine_global (h : asmSymbol symbol ≠ none) :
    asmLine (text ".global " ++ symbol) = some (.global symbol) := by
  obtain ⟨hne,hletters⟩ := asmSymbol_letters h
  change asmLine (text ".global" ++ ' ' :: symbol) = _
  rw [asmLine_directive rfl (by decide) (fun c hc => hletters c (List.mem_of_getLast? hc)) hne]
  change (asmSymbol symbol).map AsmLine.global = _
  rw [asmSymbol_self h]
  rfl

end Lines

section Numbers

theorem hexDigitValue_digitChar : ∀ n < 16, hexDigitValue n.digitChar = some n := by decide

theorem asmNumber_hexByte {n : Nat} (h : n < 256) :
    asmNumber ['0','x',(n / 16).digitChar,(n % 16).digitChar] = some n := by
  have hhigh := hexDigitValue_digitChar (n / 16) (by omega)
  have hlow := hexDigitValue_digitChar (n % 16) (by omega)
  have hsum : 16 * (16 * 0 + n / 16) + n % 16 = n := by omega
  simp [asmNumber,hhigh,hlow]
  omega

theorem head_toDigits {n : Nat} (h : n ≠ 0) : (Nat.toDigits 10 n).head? ≠ some '0' := by
  induction n using Nat.strongRecOn with
  | ind n ih =>
    by_cases hsmall : n < 10
    · have hdigit : ∀ m < 10, m ≠ 0 → [m.digitChar].head? ≠ some '0' := by decide
      rw [Nat.toDigits_of_lt_base hsmall]
      exact hdigit n hsmall h
    · rw [Nat.toDigits_of_base_le (by decide) (by omega),List.head?_append]
      have hhead := ih (n / 10) (by omega) (by omega)
      cases hdigits : (Nat.toDigits 10 (n / 10)).head? with
      | none => exact absurd (List.head?_eq_none_iff.mp hdigits) Nat.toDigits_ne_nil
      | some c =>
        rw [hdigits] at hhead
        simpa using hhead

theorem asmNumber_toDigits (n : Nat) : asmNumber (Nat.toDigits 10 n) = some n := by
  by_cases h : n = 0
  · subst h
    rfl
  · have hhead := head_toDigits h
    have hdigits : (Nat.toDigits 10 n).all Char.isDigit = true :=
      List.all_eq_true.mpr fun c hc => Nat.isDigit_of_mem_toDigits (by decide) (by decide) hc
    have hnumber : asmNumber (Nat.toDigits 10 n) =
        if Nat.toDigits 10 n = [] ∨ (Nat.toDigits 10 n).head? = some '0' then none
        else if (Nat.toDigits 10 n).all Char.isDigit then some (Nat.ofDigitChars 10 (Nat.toDigits 10 n) 0)
        else none := by
      rw [asmNumber]
      · intro digits hx
        rw [hx] at hhead
        exact hhead rfl
      · intro hx
        rw [hx] at hhead
        exact hhead rfl
    rw [hnumber,if_neg (by simp [Nat.toDigits_ne_nil,hhead]),if_pos hdigits,
      Nat.ofDigitChars_toDigits (by decide) (by decide)]

theorem asmLine_long (n : Nat) : asmLine (text ".long " ++ Nat.toDigits 10 n) = some (.long n) := by
  change asmLine (text ".long" ++ ' ' :: Nat.toDigits 10 n) = _
  rw [asmLine_directive rfl (by decide) _ Nat.toDigits_ne_nil]
  · change (asmNumber (Nat.toDigits 10 n)).map AsmLine.long = _
    rw [asmNumber_toDigits]
    rfl
  · intro c hc
    have hdigit : c.isDigit = true :=
      Nat.isDigit_of_mem_toDigits (by decide) (by decide) (List.mem_of_getLast? hc)
    exact alphanum_plain (by simp [Char.isAlphanum,hdigit])

/-- A byte as it stands in a list of bytes. -/
def byteText (b : UInt8) : List Char :=
  ['0','x',(b.toNat / 16).digitChar,(b.toNat % 16).digitChar]

/-- Bytes with a comma and a blank between them. -/
def bytesText : List UInt8 → List Char
  | [] => []
  | [b] => byteText b
  | b :: c :: bytes => byteText b ++ text ", " ++ bytesText (c :: bytes)

theorem byteText_letters (b : UInt8) : ∀ c ∈ byteText b, c.isAlphanum = true := by
  have hdigit : ∀ n < 16, n.digitChar.isAlphanum = true := by decide
  have hb := b.toNat_lt
  intro c hc
  simp only [byteText,List.mem_cons,List.not_mem_nil,or_false] at hc
  rcases hc with rfl | rfl | rfl | rfl
  · rfl
  · rfl
  · exact hdigit _ (by omega)
  · exact hdigit _ (by omega)

theorem comma_notMem_byteText (b : UInt8) : ',' ∉ byteText b :=
  fun h => absurd (byteText_letters b ',' h) (by decide)

theorem bytesText_letters (bytes : List UInt8) :
    ∀ c ∈ bytesText bytes, c.isAlphanum = true ∨ c = ',' ∨ c = ' ' := by
  induction bytes with
  | nil => simp [bytesText]
  | cons b bytes ih =>
    cases bytes with
    | nil => exact fun c hc => .inl (byteText_letters b c hc)
    | cons d bytes =>
      intro c hc
      rw [bytesText,List.append_assoc] at hc
      rcases List.mem_append.mp hc with hc | hc
      · exact .inl (byteText_letters b c hc)
      · rcases List.mem_append.mp hc with hc | hc
        · exact .inr (by simpa [text] using hc)
        · exact ih c hc

theorem asmNumber_byteText (b : UInt8) : asmNumber (byteText b) = some b.toNat :=
  asmNumber_hexByte b.toNat_lt

theorem trimBlanks_byteText (b : UInt8) : trimBlanks (byteText b) = byteText b := by
  apply trimBlanks_self
  · intro c hc
    exact (alphanum_plain (byteText_letters b c (List.mem_of_head? hc))).1
  · intro c hc
    exact (alphanum_plain (byteText_letters b c (List.mem_of_getLast? hc))).1

theorem splitOn_bytesText (b : UInt8) (bytes : List UInt8) :
    (bytesText (b :: bytes)).splitOn ',' = byteText b :: bytes.map fun b => ' ' :: byteText b := by
  induction bytes generalizing b with
  | nil => exact List.splitOn_eq_singleton (comma_notMem_byteText b)
  | cons c bytes ih =>
    have htail : (' ' :: bytesText (c :: bytes)).splitOn ',' =
        (' ' :: byteText c) :: bytes.map fun b => ' ' :: byteText b := by
      rw [List.splitOn_cons_eq_if_modifyHead,ih]
      rfl
    have htext : bytesText (b :: c :: bytes) = byteText b ++ ',' :: ' ' :: bytesText (c :: bytes) := by
      rw [bytesText,List.append_assoc]
      rfl
    rw [htext,List.splitOn_append_cons_self_of_not_mem (comma_notMem_byteText b),htail,List.map_cons]

theorem getLast?_bytesText (b : UInt8) (bytes : List UInt8) :
    ∃ d, (bytesText (b :: bytes)).getLast? = (byteText d).getLast? ∧ bytesText (b :: bytes) ≠ [] := by
  induction bytes generalizing b with
  | nil => exact ⟨b,rfl,List.cons_ne_nil _ _⟩
  | cons c bytes ih =>
    obtain ⟨d,hlast,hne⟩ := ih c
    refine ⟨d,?_,by simp [bytesText,byteText]⟩
    rw [bytesText,List.getLast?_append,hlast,List.getLast?_eq_some_getLast (l := byteText d) (List.cons_ne_nil _ _)]
    rfl

theorem mapM_map_some {α β γ : Type*} (f : β → Option γ) {g : α → β} {h : α → γ}
    (hf : ∀ a, f (g a) = some (h a)) (l : List α) : (l.map g).mapM f = some (l.map h) := by
  induction l with
  | nil => rfl
  | cons a l ih =>
    rw [List.map_cons,List.mapM_cons,hf,ih]
    rfl

theorem asmLine_bytes {bytes : List UInt8} (h : bytes ≠ []) :
    asmLine (text ".byte " ++ bytesText bytes) = some (.bytes bytes) := by
  cases bytes with
  | nil => exact absurd rfl h
  | cons b bytes =>
    obtain ⟨d,hlast,hne⟩ := getLast?_bytesText b bytes
    have hletter : ∀ c, (bytesText (b :: bytes)).getLast? = some c → isBlank c = false ∧ c ≠ ':' := by
      intro c hc
      rw [hlast] at hc
      exact alphanum_plain (byteText_letters d c (List.mem_of_getLast? hc))
    have hvalues : ∀ b : UInt8, asmNumber (trimBlanks (byteText b)) = some b.toNat := by
      intro b
      rw [trimBlanks_byteText,asmNumber_byteText]
    have hothers : ∀ b : UInt8, asmNumber (trimBlanks (' ' :: byteText b)) = some b.toNat := by
      intro b
      rw [← hvalues]
      rfl
    have hmap : ((byteText b :: bytes.map fun b => ' ' :: byteText b).mapM fun value =>
        asmNumber (trimBlanks value)) = some (b.toNat :: bytes.map UInt8.toNat) := by
      have hrest : (bytes.map fun b => ' ' :: byteText b).mapM
          (fun value => asmNumber (trimBlanks value)) = some (bytes.map UInt8.toNat) :=
        mapM_map_some (fun value => asmNumber (trimBlanks value)) (g := fun b => ' ' :: byteText b) hothers bytes
      rw [List.mapM_cons,hvalues,hrest]
      rfl
    change asmLine (text ".byte" ++ ' ' :: bytesText (b :: bytes)) = _
    rw [asmLine_directive rfl (by decide) hletter hne]
    change (((bytesText (b :: bytes)).splitOn ',').mapM fun value => asmNumber (trimBlanks value)).map
      (fun values => AsmLine.bytes (values.map UInt8.ofNat)) = _
    rw [splitOn_bytesText,hmap]
    simp [Function.comp_def]

end Numbers

section Objects

open AsmObject

variable {alignment : Nat → Nat} {o t : AsmObject} {line : List Char} {a : AsmLine}

@[simp] theorem put_current (o : AsmObject) (values : List UInt8) : (o.put values).current = o.current := rfl

@[simp] theorem put_symbols (o : AsmObject) (values : List UInt8) : (o.put values).symbols = o.symbols := rfl

theorem put_nil (o : AsmObject) : o.put [] = o := by
  rw [put,List.append_nil,Function.update_eq_self]

theorem put_put (o : AsmObject) (values values' : List UInt8) :
    (o.put values).put values' = o.put (values ++ values') := by
  simp [put]

theorem assembleLines_cons (hline : asmLine line = some a) (hstep : o.step alignment a = some t)
    (lines : List (List Char)) :
    assembleLines alignment o (line :: lines) = assembleLines alignment t lines := by
  rw [assembleLines,List.foldlM_cons,hline,Option.bind_some,hstep]
  rfl

/-- Rows of bytes are put down one behind the other. -/
theorem assembleLines_rows {rows : List (List UInt8)} (hrows : ∀ row ∈ rows, row ≠ [])
    (lines : List (List Char)) :
    assembleLines alignment o ((rows.map fun row => text ".byte " ++ bytesText row) ++ lines) =
      assembleLines alignment (o.put rows.flatten) lines := by
  induction rows generalizing o with
  | nil =>
    rw [List.flatten_nil,put_nil]
    rfl
  | cons row rows ih =>
    obtain ⟨hrow,hrows⟩ := List.forall_mem_cons.mp hrows
    rw [List.map_cons,List.cons_append,assembleLines_cons (asmLine_bytes hrow) rfl,ih hrows,put_put,
      List.flatten_cons]

theorem find_of_mem {symbol : List Char} {place : List Char × Nat} (hnodup : (o.symbols.map Prod.fst).Nodup)
    (hmem : (symbol,place) ∈ o.symbols) : o.find symbol = some place := by
  rw [find]
  generalize o.symbols = symbols at hnodup hmem
  induction symbols with
  | nil => cases hmem
  | cons s symbols ih =>
    obtain ⟨hhead,htail⟩ := List.nodup_cons.mp hnodup
    rcases List.mem_cons.mp hmem with rfl | hmem
    · simp
    · have hother : s.1 ≠ symbol := fun h => hhead (h ▸ List.mem_map_of_mem (f := Prod.fst) hmem)
      rw [List.find?_cons_of_neg (by simpa using hother)]
      exact ih htail hmem

/-- A symbol for the place that has been reached, visible to the linker. -/
def AsmObject.define (o : AsmObject) (symbol : List Char) : AsmObject :=
  { o with
    globals := o.globals ++ [symbol]
    symbols := o.symbols ++ [(symbol,o.current,o.here)] }

end Objects

end Esp32Ipc.Framework
