import Loom.Category
import Loom.Symbols

set_option autoImplicit false

namespace Loom

structure SourceLocation where
  document : String
  line : UInt32
deriving DecidableEq, Repr

structure TypeRecord where
  name : String
  space : String
  fullName : String
  category : Category
  baseType : Option String
  fields : List FieldDecl
  source : Option SourceLocation
deriving DecidableEq, Repr

structure ApiMetadata where
  assemblyName : String
  references : List String
  classes : List TypeRecord := []
  structs : List TypeRecord := []
  enums : List TypeRecord := []
  interfaces : List TypeRecord := []
  delegates : List TypeRecord := []
deriving DecidableEq, Repr

structure Manifest where
  assemblyNames : List String
deriving DecidableEq, Repr

def TypeDecl.describe (t : TypeDecl) (category : Category) (symbols : Option SymbolTable) :
    TypeRecord where
  name := t.name
  space := t.space
  fullName := t.fullName
  category := category
  baseType := t.base.map TypeRef.fullName
  fields := t.fields
  source := (symbols.bind (·.lookup t.fullName)).map fun entry => ⟨entry.document, entry.line⟩

namespace ApiMetadata

def fileExtension : List Char := "metadata.json".toList

def get (m : ApiMetadata) : Category → List TypeRecord
  | .classType => m.classes
  | .structType => m.structs
  | .enumType => m.enums
  | .interfaceType => m.interfaces
  | .multicastDelegate | .delegate => m.delegates

def push (m : ApiMetadata) (record : TypeRecord) : ApiMetadata :=
  match record.category with
  | .classType => { m with classes := m.classes ++ [record] }
  | .structType => { m with structs := m.structs ++ [record] }
  | .enumType => { m with enums := m.enums ++ [record] }
  | .interfaceType => { m with interfaces := m.interfaces ++ [record] }
  | .multicastDelegate | .delegate => { m with delegates := m.delegates ++ [record] }

def records (m : ApiMetadata) : List TypeRecord :=
  m.classes ++ m.structs ++ m.enums ++ m.interfaces ++ m.delegates

def typeCount (m : ApiMetadata) : Nat := m.records.length

end ApiMetadata

end Loom
