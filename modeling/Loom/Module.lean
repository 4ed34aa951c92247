import Loom.Bytes

set_option autoImplicit false

namespace Loom

structure Magic where
  first : UInt8
  second : UInt8
  third : UInt8
  fourth : UInt8
deriving DecidableEq, Repr

def Magic.bytes (m : Magic) : Bytes := [m.first, m.second, m.third, m.fourth]

def Magic.describe (m : Magic) : String :=
  s!"[{m.first.toNat}, {m.second.toNat}, {m.third.toNat}, {m.fourth.toNat}]"

structure Identity where
  name : String
  version : String
deriving DecidableEq, Repr

def Identity.fullName (i : Identity) : String := i.name ++ ", Version=" ++ i.version

def qualified (space name : String) : String :=
  if space = "" then name else space ++ "." ++ name

inductive TypeKind where
  | classType
  | valueType
  | enumType
  | interfaceType
deriving DecidableEq, Repr

structure TypeRef where
  scope : Option String
  space : String
  name : String
deriving DecidableEq, Repr

namespace TypeRef

def fullName (t : TypeRef) : String := qualified t.space t.name

def openName (t : TypeRef) : String :=
  qualified t.space (String.ofList (t.name.toList.takeWhile (· ≠ '\x60')))

end TypeRef

structure FieldDecl where
  name : String
  typeName : String
deriving DecidableEq, Repr

structure TypeDecl where
  space : String
  name : String
  kind : TypeKind
  base : Option TypeRef
  attributes : List String
  fields : List FieldDecl
deriving DecidableEq, Repr

namespace TypeDecl

def fullName (t : TypeDecl) : String := qualified t.space t.name

def hasAttribute (t : TypeDecl) (mark : String) : Bool := t.attributes.contains mark

def addAttributeOnce (t : TypeDecl) (mark : String) : TypeDecl :=
  if t.hasAttribute mark then t else { t with attributes := t.attributes ++ [mark] }

end TypeDecl

structure Registration where
  typeName : String
  category : String
deriving DecidableEq, Repr

structure Module where
  magic : Magic
  format : UInt32
  flags : UInt32
  identity : Identity
  references : List Identity
  types : List TypeDecl
  registrations : List Registration
  sourceFile : Option String
deriving DecidableEq, Repr

namespace Module

def magicNumber : Magic := ⟨0x57, 0x45, 0x46, 0x54⟩

def currentFormat : UInt32 := 1

def wovenFlag : UInt32 := 1

def fileExtension : List Char := ['w', 'b', 'c']

def name (m : Module) : String := m.identity.name

def hasFlag (m : Module) (flag : UInt32) : Bool := m.flags &&& flag != 0

def setFlag (m : Module) (flag : UInt32) : Module := { m with flags := m.flags ||| flag }

def dependencies (m : Module) : List String := m.references.map Identity.fullName

def findType (m : Module) (fullName : String) : Option TypeDecl :=
  m.types.find? (·.fullName = fullName)

def isRegistered (m : Module) (typeName : String) : Bool :=
  m.registrations.any (·.typeName = typeName)

end Module

end Loom
