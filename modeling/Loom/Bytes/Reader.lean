import Loom.Bytes.Field

set_option autoImplicit false

/-! A reader that fails stays usable: it keeps the position that the failed read had reached. -/
namespace Loom

inductive DecodeError where
  | unexpectedEnd (offset : Nat)
  | invalidText (offset : Nat)
  | invalidTag (what : String) (tag : UInt8) (offset : Nat)
deriving DecidableEq, Repr

def DecodeError.message : DecodeError → String
  | .unexpectedEnd offset => s!"Unexpected end of data at offset {offset}"
  | .invalidText offset => s!"Invalid UTF-8 string at offset {offset}"
  | .invalidTag what tag offset => s!"Invalid {what} tag {tag.toNat} at offset {offset}"

structure Reader where
  position : Nat
  unread : Bytes
deriving DecidableEq, Repr

abbrev Read := EStateM DecodeError Reader

namespace Reader

def start (bytes : Bytes) : Reader := ⟨0, bytes⟩

def remaining (r : Reader) : Nat := r.unread.length

def hasMore (r : Reader) : Bool := !r.unread.isEmpty

end Reader

namespace Read

def position : Read Nat := fun r => .ok r.position r

def bytes (n : Nat) : Read Bytes := fun r =>
  match Bytes.splitExact n r.unread with
  | some (front, back) => .ok front ⟨r.position + n, back⟩
  | none => .error (.unexpectedEnd r.position) r

def u8 : Read UInt8 := fun r =>
  match r.unread with
  | b :: rest => .ok b ⟨r.position + 1, rest⟩
  | [] => .error (.unexpectedEnd r.position) r

def bool : Read Bool := do
  return (← u8) != 0

def u32 : Read UInt32 := fun r =>
  match r.unread with
  | a :: b :: c :: d :: rest => .ok (Bytes.toWord a b c d) ⟨r.position + 4, rest⟩
  | _ => .error (.unexpectedEnd r.position) r

def text : Read String := do
  let length ← u32
  let offset ← position
  match Bytes.toText? (← bytes length.toNat) with
  | some s => return s
  | none => throw (.invalidText offset)

def optText : Read (Option String) := do
  if ← bool then return some (← text) else return none

-- Every row takes a byte at least, so a number above that of the unread bytes is refused, at the offset of the
-- number.
def count : Read Nat := do
  let offset ← position
  let n ← u32
  fun r => if Bytes.atLeast n.toNat r.unread then .ok n.toNat r else .error (.unexpectedEnd offset) r

def plainCount : Read Nat := do
  return (← u32).toNat

def rows {α : Type} (row : Read α) : Nat → Read (List α)
  | 0 => return []
  | n + 1 => do
    let first ← row
    return first :: (← rows row n)

def table {α : Type} (count : Read Nat) (row : Read α) : Read (List α) := do
  rows row (← count)

end Read

inductive Shape where
  | u8
  | bool
  | u32
  | raw (length : Nat)
  | text
  | optText
  | count
deriving DecidableEq, Repr

def Field.shape : Field → Shape
  | .u8 _ => .u8
  | .bool _ => .bool
  | .u32 _ => .u32
  | .raw bytes => .raw bytes.length
  | .text _ => .text
  | .optText _ => .optText

def Shape.read : Shape → Read Field
  | .u8 => return .u8 (← Read.u8)
  | .bool => return .bool (← Read.bool)
  | .u32 => return .u32 (← Read.u32)
  | .raw length => return .raw (← Read.bytes length)
  | .text => return .text (← Read.text)
  | .optText => return .optText (← Read.optText)
  | .count => return .u32 (UInt32.ofNat (← Read.count))

end Loom
