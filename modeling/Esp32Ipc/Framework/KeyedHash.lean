import Mathlib.Data.List.Basic
import Mathlib.Tactic

/-!
# Keyed hashes taken piece by piece

HMAC over an arbitrary hash, and a context that is given the message in pieces: what it returns at
the end depends on the pieces only through their concatenation.
-/

namespace Esp32Ipc.Framework

section Hmac

variable (hash : List UInt8 → List UInt8) (blockLen : Nat)

/-- The key at the length of a block: hashed when it is longer, filled up with zeros. -/
def blockKey (key : List UInt8) : List UInt8 :=
  let key := if blockLen < key.length then hash key else key
  key ++ List.replicate (blockLen - key.length) 0

def innerKey (key : List UInt8) : List UInt8 := (blockKey hash blockLen key).map (· ^^^ 0x36)

def outerKey (key : List UInt8) : List UInt8 := (blockKey hash blockLen key).map (· ^^^ 0x5c)

def hmac (key message : List UInt8) : List UInt8 :=
  hash (outerKey hash blockLen key ++ hash (innerKey hash blockLen key ++ message))

end Hmac

/-- The two padded keys and what the inner hash has been given. -/
structure HmacContext where
  inner : List UInt8
  outer : List UInt8
  stream : List UInt8
  deriving DecidableEq, Repr

namespace HmacContext

variable {hash : List UInt8 → List UInt8} {blockLen : Nat} {key message piece : List UInt8}
  {c : HmacContext}

def keyed (hash : List UInt8 → List UInt8) (blockLen : Nat) (key : List UInt8) : HmacContext :=
  ⟨innerKey hash blockLen key,outerKey hash blockLen key,innerKey hash blockLen key⟩

def absorb (c : HmacContext) (piece : List UInt8) : HmacContext := { c with stream := c.stream ++ piece }

def digest (hash : List UInt8 → List UInt8) (c : HmacContext) : List UInt8 :=
  hash (c.outer ++ hash c.stream)

def restart (c : HmacContext) : HmacContext := { c with stream := c.inner }

/-- The context is set up for the key, whatever the inner hash has been given. -/
def HasKey (hash : List UInt8 → List UInt8) (blockLen : Nat) (c : HmacContext) (key : List UInt8) : Prop :=
  c.inner = innerKey hash blockLen key ∧ c.outer = outerKey hash blockLen key

/-- The inner hash has been given the message behind its key. -/
def HasMessage (c : HmacContext) (message : List UInt8) : Prop := c.stream = c.inner ++ message

theorem keyed_hasKey : (keyed hash blockLen key).HasKey hash blockLen key := ⟨rfl,rfl⟩

theorem keyed_hasMessage : (keyed hash blockLen key).HasMessage [] := (List.append_nil _).symm

theorem restart_hasMessage : c.restart.HasMessage [] := (List.append_nil _).symm

theorem HasMessage.absorb (h : c.HasMessage message) (piece : List UInt8) :
    (c.absorb piece).HasMessage (message ++ piece) := by
  change c.stream ++ piece = c.inner ++ (message ++ piece)
  rw [h,List.append_assoc]

theorem HasKey.digest_eq (hkey : c.HasKey hash blockLen key) (h : c.HasMessage message) :
    c.digest hash = hmac hash blockLen key message := by
  rw [digest,h,hkey.1,hkey.2,hmac]

end HmacContext

end Esp32Ipc.Framework
