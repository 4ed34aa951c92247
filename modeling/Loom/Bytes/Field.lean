import Loom.Bytes

set_option autoImplicit false

namespace Loom

inductive Field where
  | u8 (value : UInt8)
  | bool (value : Bool)
  | u32 (value : UInt32)
  | raw (bytes : Bytes)
  | text (value : String)
  | optText (value : Option String)
deriving DecidableEq, Repr

namespace Field

-- A length that needs more than 32 bits wraps.
def encodeText (s : String) : Bytes :=
  let bytes := Bytes.ofText s
  Bytes.ofWord (UInt32.ofNat bytes.length) ++ bytes

def encodeOptText : Option String → Bytes
  | none => [0]
  | some s => 1 :: encodeText s

def encode : Field → Bytes
  | .u8 value => [value]
  | .bool value => [if value then 1 else 0]
  | .u32 value => Bytes.ofWord value
  | .raw bytes => bytes
  | .text value => encodeText value
  | .optText value => encodeOptText value

def encodeTable {α : Type} (row : α → Bytes) (rows : List α) : Bytes :=
  Bytes.ofWord (UInt32.ofNat rows.length) ++ rows.flatMap row

end Field

def Bytes.patchWord (offset : Nat) (word : UInt32) (buffer : Bytes) : Option Bytes :=
  if offset + 4 ≤ buffer.length then
    some (buffer.take offset ++ Bytes.ofWord word ++ buffer.drop (offset + 4))
  else none

end Loom
