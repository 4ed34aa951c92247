import Loom.Checksum
import Loom.Format
import Loom.Module

set_option autoImplicit false

/-! The checksum and the way in which a table's length is read are parameters of the codec. -/
namespace Loom

namespace TypeKind

def tag : TypeKind → UInt8
  | .classType => 0
  | .valueType => 1
  | .enumType => 2
  | .interfaceType => 3

def ofTag? : UInt8 → Option TypeKind
  | 0 => some .classType
  | 1 => some .valueType
  | 2 => some .enumType
  | 3 => some .interfaceType
  | _ => none

def read : Read TypeKind := do
  let offset ← Read.position
  let tag ← Read.u8
  match ofTag? tag with
  | some kind => return kind
  | none => throw (.invalidTag "type kind" tag offset)

end TypeKind

namespace Identity

def encode (i : Identity) : Bytes := Field.encodeText i.name ++ Field.encodeText i.version

def read : Read Identity := do
  let name ← Read.text
  let version ← Read.text
  return ⟨name, version⟩

end Identity

namespace TypeRef

def encode (t : TypeRef) : Bytes :=
  Field.encodeOptText t.scope ++ Field.encodeText t.space ++ Field.encodeText t.name

def read : Read TypeRef := do
  let scope ← Read.optText
  let space ← Read.text
  let name ← Read.text
  return ⟨scope, space, name⟩

def encodeOpt : Option TypeRef → Bytes
  | none => [0]
  | some base => 1 :: base.encode

def readOpt : Read (Option TypeRef) := do
  if ← Read.bool then return some (← read) else return none

end TypeRef

namespace FieldDecl

def encode (f : FieldDecl) : Bytes := Field.encodeText f.name ++ Field.encodeText f.typeName

def read : Read FieldDecl := do
  let name ← Read.text
  let typeName ← Read.text
  return ⟨name, typeName⟩

end FieldDecl

namespace TypeDecl

def encode (t : TypeDecl) : Bytes :=
  Field.encodeText t.space ++ Field.encodeText t.name ++ [t.kind.tag] ++ TypeRef.encodeOpt t.base
    ++ Field.encodeTable Field.encodeText t.attributes ++ Field.encodeTable FieldDecl.encode t.fields

def read (count : Read Nat) : Read TypeDecl := do
  let space ← Read.text
  let name ← Read.text
  let kind ← TypeKind.read
  let base ← TypeRef.readOpt
  let attributes ← Read.table count Read.text
  let fields ← Read.table count FieldDecl.read
  return ⟨space, name, kind, base, attributes, fields⟩

end TypeDecl

namespace Registration

def encode (r : Registration) : Bytes :=
  Field.encodeText r.typeName ++ Field.encodeText r.category

def read : Read Registration := do
  let typeName ← Read.text
  let category ← Read.text
  return ⟨typeName, category⟩

end Registration

namespace Module

def payload (m : Module) : Bytes :=
  m.identity.encode ++ Field.encodeTable Identity.encode m.references
    ++ Field.encodeTable TypeDecl.encode m.types
    ++ Field.encodeTable Registration.encode m.registrations ++ Field.encodeOptText m.sourceFile

def encodeWith (checksum : Bytes → UInt32) (m : Module) : Bytes :=
  m.magic.bytes ++ Bytes.ofWord m.format ++ Bytes.ofWord m.flags
    ++ Bytes.ofWord (checksum m.payload) ++ m.payload

def encode (m : Module) : Bytes := m.encodeWith Checksum.crc32

def readPayload (count : Read Nat) (flags : UInt32) : Read Module := do
  let identity ← Identity.read
  let references ← Read.table count Identity.read
  let types ← Read.table count (TypeDecl.read count)
  let registrations ← Read.table count Registration.read
  let sourceFile ← Read.optText
  return ⟨magicNumber, currentFormat, flags, identity, references, types, registrations, sourceFile⟩

def readWith (checksum : Bytes → UInt32) (count : Read Nat) : Read (Except FormatError Module) := do
  let magic ← Read.magic
  if magic ≠ magicNumber then return .error (.magic magic)
  let version ← Read.u32
  if version ≠ currentFormat then return .error (.version version)
  let flags ← Read.u32
  let stored ← Read.u32
  let computed := checksum (← get).unread
  if stored ≠ computed then return .error (.checksum stored computed)
  return .ok (← readPayload count flags)

def decodeWith (checksum : Bytes → UInt32) (count : Read Nat) (bytes : Bytes) :
    Except FormatError Module :=
  (readWith checksum count).decode bytes

def decode (bytes : Bytes) : Except FormatError Module := decodeWith Checksum.crc32 Read.count bytes

def wording : FormatWording :=
  ⟨"Invalid magic number: expected WEFT", "Unsupported version", "Checksum mismatch"⟩

end Module

end Loom
