import Loom.Checksum
import Loom.Format

set_option autoImplicit false

namespace Loom

structure SymbolEntry where
  typeName : String
  document : String
  line : UInt32
deriving DecidableEq, Repr

structure SymbolTable where
  moduleName : String
  entries : List SymbolEntry
deriving DecidableEq, Repr

namespace SymbolEntry

def encode (e : SymbolEntry) : Bytes :=
  Field.encodeText e.typeName ++ Field.encodeText e.document ++ Bytes.ofWord e.line

def read : Read SymbolEntry := do
  let typeName ← Read.text
  let document ← Read.text
  let line ← Read.u32
  return ⟨typeName, document, line⟩

end SymbolEntry

namespace SymbolTable

def magicNumber : Magic := ⟨0x57, 0x53, 0x59, 0x4D⟩

def currentFormat : UInt32 := 1

def fileExtension : List Char := ['w', 's', 'y', 'm']

def lookup (t : SymbolTable) (typeName : String) : Option SymbolEntry :=
  t.entries.find? (·.typeName = typeName)

def payload (t : SymbolTable) : Bytes :=
  Field.encodeText t.moduleName ++ Field.encodeTable SymbolEntry.encode t.entries

def encodeWith (checksum : Bytes → UInt32) (t : SymbolTable) : Bytes :=
  magicNumber.bytes ++ Bytes.ofWord currentFormat ++ Bytes.ofWord (checksum t.payload) ++ t.payload

def encode (t : SymbolTable) : Bytes := t.encodeWith Checksum.crc32

def readPayload (count : Read Nat) : Read SymbolTable := do
  let moduleName ← Read.text
  let entries ← Read.table count SymbolEntry.read
  return ⟨moduleName, entries⟩

def readWith (checksum : Bytes → UInt32) (count : Read Nat) :
    Read (Except FormatError SymbolTable) := do
  let magic ← Read.magic
  if magic ≠ magicNumber then return .error (.magic magic)
  let version ← Read.u32
  if version ≠ currentFormat then return .error (.version version)
  let stored ← Read.u32
  let computed := checksum (← get).unread
  if stored ≠ computed then return .error (.checksum stored computed)
  return .ok (← readPayload count)

def decodeWith (checksum : Bytes → UInt32) (count : Read Nat) (bytes : Bytes) :
    Except FormatError SymbolTable :=
  (readWith checksum count).decode bytes

def decode (bytes : Bytes) : Except FormatError SymbolTable :=
  decodeWith Checksum.crc32 Read.count bytes

def wording : FormatWording :=
  ⟨"Invalid symbol file magic: expected WSYM", "Unsupported symbol file version",
    "Symbol file checksum mismatch"⟩

end SymbolTable

end Loom
