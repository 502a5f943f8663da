import Mathlib.Data.Char
import Mathlib.Data.List.Sort
import Esp32Ipc.Framework.Segments

/-!
# Packing the detector's models

`pack_model.py` lays several models out in one binary: a table of offsets, the names, and the data,
padded to sixteen bytes for the `EDL2` format. The reader follows the layout that `pack_models`
documents; it is told nothing but the file.
-/

namespace Esp32Ipc.Detect

open Framework

/-- Text as the tool sees it, one code point after the other. -/
abbrev Text := List Char

inductive PackError where
  | osError | unicodeDecodeError | wrongModelFormat | formatsDiffer | invalidModelPath
  | assertionError | structError | indexError | typeError
  deriving DecidableEq, Repr

inductive Format where
  | edl1 | edl2
  deriving DecidableEq, Repr

/-- What the tool asks the file system: `glob` lists the `*.espdl` of a directory in no order. -/
structure FileSystem where
  isFile : Text → Bool
  glob : Text → List Text
  name : Text → Text
  contents : Text → Option (List UInt8)

/-- `struct.pack("b", ord(char))` takes a signed byte. -/
def structPackChar (char : Char) : Except PackError UInt8 :=
  if char.toNat ≤ 127 then .ok (UInt8.ofNat char.toNat) else .error .structError

/-- `struct.pack("I", n)` on a little-endian host. -/
def structPackI (n : Nat) : Except PackError (List UInt8) :=
  if n < 4294967296 then .ok (ByteMemory.wordBytes n) else .error .structError

/-- An empty string packs to no bytes object at all, and `None` cannot be padded. -/
def structPackString (string : Text) (maxLen : Option Nat) : Except PackError (Option (List UInt8)) := do
  let maxLen := maxLen.getD string.length
  if maxLen < string.length then throw .assertionError
  let leftNum := maxLen - string.length
  let outBytes ← string.foldlM (fun (out : Option (List UInt8)) char => do
    let byte ← structPackChar char
    return some (out.getD [] ++ [byte])) none
  (List.range leftNum).foldlM (fun out _ =>
    match out with
    | none => throw .typeError
    | some bytes => return some (bytes ++ [0])) outBytes

/-- The bytes that a format's name or the header's tag is spelled with. -/
def tagBytes (tag : Text) : List UInt8 := tag.map fun c => UInt8.ofNat c.toNat

def Format.tag : Format → Text
  | .edl1 => ['E','D','L','1']
  | .edl2 => ['E','D','L','2']

def Format.packTag : Format → Text
  | .edl1 => ['P','D','L','1']
  | .edl2 => ['P','D','L','2']

def getModelFormat (fs : FileSystem) (filename : Text) : Except PackError Format := do
  let some contents := fs.contents filename | throw .osError
  let data := contents.take 4
  if data = tagBytes Format.edl1.tag then return .edl1
  if data = tagBytes Format.edl2.tag then return .edl2
  -- `data.decode("utf-8")` raises before the comparison can
  if data.toByteArray.validateUTF8 then throw .wrongModelFormat else throw .unicodeDecodeError

def padData (format : Format) (data : List UInt8) : List UInt8 :=
  if format = .edl2 ∧ data.length % 16 ≠ 0 then data ++ List.replicate (16 - data.length % 16) 0
  else data

def readData (fs : FileSystem) (format : Format) (filename : Text) : Except PackError (List UInt8) := do
  let some data := fs.contents filename | throw .osError
  return padData format data

structure PackState where
  nameBin : Option (List UInt8)
  dataBin : Option (List UInt8)
  nameOffset : Nat
  dataOffset : Nat
  headerBin : List UInt8
  deriving DecidableEq, Repr

/-- Python's truth of a bytes object that may be `None`. -/
def truthy (bin : Option (List UInt8)) : Bool := bin.any fun b => !b.isEmpty

/-- The name's part of one turn of the loop over `enumerate(model_names)`. -/
def packName (modelNames : List Text) (st : PackState) (idx : Nat) : Except PackError PackState := do
  let name := modelNames.getD idx []
  let packed ← structPackString name (some name.length)
  if !truthy st.nameBin then return { st with nameBin := packed }
  let some bytes := packed | throw .typeError
  return { st with
    nameBin := some (st.nameBin.getD [] ++ bytes)
    nameOffset := st.nameOffset + (modelNames.getD (idx - 1) []).length }

def packData (modelBins : List (List UInt8)) (st : PackState) (idx : Nat) : PackState :=
  let bin := modelBins.getD idx []
  if !truthy st.dataBin then { st with dataBin := some bin }
  else
    { st with
      dataBin := some (st.dataBin.getD [] ++ bin)
      dataOffset := st.dataOffset + (modelBins.getD (idx - 1) []).length }

def packOffsets (st : PackState) (name : Text) : Except PackError PackState := do
  let dataWord ← structPackI st.dataOffset
  let nameWord ← structPackI st.nameOffset
  let lengthWord ← structPackI name.length
  return { st with headerBin := st.headerBin ++ dataWord ++ nameWord ++ lengthWord }

def packStep (modelNames : List Text) (modelBins : List (List UInt8)) (st : PackState) (idx : Nat) :
    Except PackError PackState := do
  let st ← packName modelNames st idx
  packOffsets (packData modelBins st idx) (modelNames.getD idx [])

def namesStart (modelNum : Nat) : Nat := 4 + 4 + modelNum * 12

/-- `EDL2` data starts on a multiple of sixteen. -/
def dataStart (format : Format) (nameOffset nameLength : Nat) : Nat :=
  match format with
  | .edl1 => nameOffset + nameLength
  | .edl2 => (nameOffset + nameLength + 15) / 16 * 16

/-- The pack of named models that were read already. -/
def packBins (format : Format) (modelNames : List Text) (modelBins : List (List UInt8)) :
    Except PackError (List UInt8) := do
  let nameLength := (modelNames.map List.length).sum
  let modelNum := modelNames.length
  let some tag ← structPackString format.packTag (some 4) | throw .typeError
  let count ← structPackI modelNum
  let nameOffset := namesStart modelNum
  let dataOffset := dataStart format nameOffset nameLength
  let paddingBin := List.replicate (dataOffset - nameOffset - nameLength) (0 : UInt8)
  let st ← (List.range modelNum).foldlM (packStep modelNames modelBins)
    ⟨none, none, nameOffset, dataOffset, tag ++ count⟩
  let some nameBin := st.nameBin | throw .typeError
  let some dataBin := st.dataBin | throw .typeError
  return st.headerBin ++ nameBin ++ paddingBin ++ dataBin

def packFiles (fs : FileSystem) (modelFiles : List Text) : Except PackError (List UInt8) := do
  let modelFormats ← modelFiles.mapM (getModelFormat fs)
  let format :: others := modelFormats | throw .indexError
  if others.any (fun f => format ≠ f) then throw .formatsDiffer
  let modelBins ← modelFiles.mapM (readData fs format)
  packBins format (modelFiles.map fs.name) modelBins

def sortPaths (paths : List Text) : List Text := paths.insertionSort (· ≤ ·)

/-- The file that `pack_models` writes. -/
def packModels (fs : FileSystem) (modelPathOrDir : List Text) : Except PackError (List UInt8) :=
  match modelPathOrDir with
  | [path] =>
    if fs.isFile path then
      match fs.contents path with
      | some contents => .ok contents
      | none => .error .osError
    else packFiles fs (sortPaths (fs.glob path))
  | paths =>
    if (sortPaths paths).all fs.isFile then packFiles fs (sortPaths paths)
    else .error .invalidModelPath

end Esp32Ipc.Detect
