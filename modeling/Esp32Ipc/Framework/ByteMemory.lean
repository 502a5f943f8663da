import Mathlib.Data.List.GetD
import Mathlib.Tactic

/-!
# Bytes by address

A memory is a total function of the address, so that what a store past the end of an array would
do is visible instead of being cut off. Blocks and little-endian words are stored and fetched, and
a store leaves every block it does not touch.
-/

namespace Esp32Ipc.Framework

abbrev ByteMemory := Nat → UInt8

namespace ByteMemory

variable {m m' : ByteMemory} {p q n : Nat} {data : List UInt8}

def write (m : ByteMemory) (p : Nat) (data : List UInt8) : ByteMemory :=
  fun a => if p ≤ a ∧ a < p + data.length then data.getD (a - p) 0 else m a

def read (m : ByteMemory) (p n : Nat) : List UInt8 := (List.range n).map fun k => m (p + k)

/-- The four bytes of a word, the lowest first. -/
def wordBytes (w : Nat) : List UInt8 :=
  [UInt8.ofNat w, UInt8.ofNat (w / 256), UInt8.ofNat (w / 65536), UInt8.ofNat (w / 16777216)]

/-- The number that bytes stand for, the lowest first. -/
def ofBytes (bytes : List UInt8) : Nat := bytes.foldr (fun b n => b.toNat + 256 * n) 0

def writeWord (m : ByteMemory) (p w : Nat) : ByteMemory := m.write p (wordBytes w)

def word (m : ByteMemory) (p : Nat) : Nat := ofBytes (m.read p 4)

/-- Both memories hold the same bytes from `p` up to `q`. -/
def SameOn (m m' : ByteMemory) (p q : Nat) : Prop := ∀ a, p ≤ a → a < q → m' a = m a

@[simp] theorem wordBytes_length (w : Nat) : (wordBytes w).length = 4 := rfl

theorem write_sameOn (h : p + data.length ≤ n ∨ q ≤ p) : SameOn m (m.write p data) n q := by
  intro a hlow hhigh
  exact if_neg (by omega)

theorem SameOn.mono (h : SameOn m m' p q) {a b : Nat} (hlow : p ≤ a) (hhigh : b ≤ q) :
    SameOn m m' a b := fun x hx hx' => h x (hlow.trans hx) (hx'.trans_le hhigh)

theorem SameOn.read_eq (h : SameOn m m' p (p + n)) : m'.read p n = m.read p n := by
  apply List.map_congr_left
  intro k hk
  have hlt := List.mem_range.mp hk
  exact h (p + k) (by omega) (by omega)

theorem SameOn.word_eq (h : SameOn m m' p (p + 4)) : m'.word p = m.word p :=
  congrArg ofBytes h.read_eq

theorem read_succ (m : ByteMemory) (p n : Nat) : m.read p (n + 1) = m.read p n ++ [m (p + n)] := by
  rw [read,List.range_succ,List.map_append]
  rfl

theorem write_take_succ (m : ByteMemory) (p : Nat) {data : List UInt8} {k : Nat} (hk : k < data.length) :
    (m.write p (data.take k)).write (p + k) [data.getD k 0] = m.write p (data.take (k + 1)) := by
  funext a
  simp only [write,List.length_singleton,List.length_take,Nat.min_eq_left hk.le,
    Nat.min_eq_left (Nat.succ_le_of_lt hk)]
  by_cases hlast : a = p + k
  · subst a
    simp [hk]
  · rw [if_neg (by omega)]
    by_cases hin : p ≤ a ∧ a < p + k
    · rw [if_pos hin,if_pos (by omega)]
      have hlt : a - p < k := by omega
      simp [List.getD_eq_getElem?_getD,hlt,Nat.lt_succ_of_lt hlt]
    · rw [if_neg hin,if_neg (by omega)]

@[simp] theorem read_write : (m.write p data).read p data.length = data := by
  apply List.ext_getElem
  · simp [read]
  · intro k hk hk'
    simp [read,write,hk']

theorem ofBytes_wordBytes {w : Nat} (h : w < 4294967296) : ofBytes (wordBytes w) = w := by
  simp only [ofBytes,wordBytes,List.foldr_cons,List.foldr_nil,UInt8.toNat_ofNat']
  omega

theorem word_writeWord {w : Nat} (h : w < 4294967296) : (m.writeWord p w).word p = w := by
  have hread : (m.write p (wordBytes w)).read p 4 = wordBytes w := read_write
  rw [word,writeWord,hread]
  exact ofBytes_wordBytes h

end ByteMemory

end Esp32Ipc.Framework
