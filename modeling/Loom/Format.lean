import Loom.Bytes.Reader
import Loom.IoError
import Loom.Module

set_option autoImplicit false

namespace Loom

inductive FormatError where
  | malformed (error : DecodeError)
  | magic (found : Magic)
  | version (found : UInt32)
  | checksum (stored computed : UInt32)
deriving DecidableEq, Repr

inductive ReadError where
  | format (error : FormatError)
  | io (error : IoError)
deriving DecidableEq, Repr

def hexLiteral (n : UInt32) : String := "0x" ++ String.ofList (Nat.toDigits 16 n.toNat)

structure FormatWording where
  magicFault : String
  versionFault : String
  checksumFault : String

namespace FormatWording

def format (w : FormatWording) : FormatError → String
  | .malformed error => "Decode error: " ++ error.message
  | .magic found => s!"{w.magicFault}, got {found.describe}"
  | .version found => s!"{w.versionFault}: {found.toNat} (current: 1)"
  | .checksum stored computed =>
    s!"{w.checksumFault}: expected {hexLiteral stored}, got {hexLiteral computed}"

def read (w : FormatWording) : ReadError → String
  | .format error => w.format error
  | .io error => "I/O error: " ++ error.message

end FormatWording

def FormatError.causes : FormatError → List String
  | .malformed error => [error.message]
  | _ => []

def ReadError.causes : ReadError → List String
  | .format error => error.causes
  | .io error => [error.message]

def Read.magic : Read Magic := fun r =>
  match r.unread with
  | a :: b :: c :: d :: rest => .ok ⟨a, b, c, d⟩ ⟨r.position + 4, rest⟩
  | _ => .error (.unexpectedEnd r.position) r

def Read.decode {α : Type} (read : Read (Except FormatError α)) (bytes : Bytes) :
    Except FormatError α :=
  match read (Reader.start bytes) with
  | .ok result _ => result
  | .error error _ => .error (.malformed error)

end Loom
