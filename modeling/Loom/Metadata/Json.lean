import Loom.Json.Record
import Loom.Metadata

set_option autoImplicit false

namespace Loom

namespace Category

def toJson (c : Category) : Json := .text c.name

def ofJson? : Json → Option Category
  | .string (some name) => ofName? name
  | .object [(some name, .null)] => ofName? name
  | _ => none

end Category

namespace FieldDecl

def toJson (f : FieldDecl) : Json :=
  .object [Json.member "name" (.text f.name), Json.member "typeName" (.text f.typeName)]

def ofJson? (j : Json) : Option FieldDecl := do
  match ← j.fields? ["name", "typeName"] with
  | [some name, some typeName] => return ⟨← name.text?, ← typeName.text?⟩
  | _ => none

end FieldDecl

namespace SourceLocation

def toJson (s : SourceLocation) : Json :=
  .object [Json.member "document" (.text s.document),
    Json.member "line" (.number (Nat.toDigits 10 s.line.toNat))]

def ofJson? (j : Json) : Option SourceLocation := do
  match ← j.fields? ["document", "line"] with
  | [some document, some line] => return ⟨← document.text?, ← line.word?⟩
  | _ => none

end SourceLocation

namespace TypeRecord

def toJson (t : TypeRecord) : Json :=
  .object ([Json.member "name" (.text t.name), Json.member "namespace" (.text t.space),
      Json.member "fullName" (.text t.fullName), Json.member "category" t.category.toJson]
    ++ (match t.baseType with
      | some base => [Json.member "baseType" (.text base)]
      | none => [])
    ++ (match t.fields with
      | [] => []
      | fields => [Json.member "fields" (.array (fields.map FieldDecl.toJson))])
    ++ (match t.source with
      | some source => [Json.member "source" source.toJson]
      | none => []))

def ofJson? (j : Json) : Option TypeRecord := do
  match ← j.fields? ["name", "namespace", "fullName", "category", "baseType", "fields", "source"] with
  | [some name, some space, some fullName, some category, baseType, fields, source] =>
    return {
      name := ← name.text?
      space := ← space.text?
      fullName := ← fullName.text?
      category := ← Category.ofJson? category
      baseType := ← Json.optional? Json.text? baseType
      fields := ← Json.listOrEmpty? FieldDecl.ofJson? fields
      source := ← Json.optional? SourceLocation.ofJson? source }
  | _ => none

end TypeRecord

namespace ApiMetadata

def toJson (m : ApiMetadata) : Json :=
  .object [Json.member "assemblyName" (.text m.assemblyName),
    Json.member "references" (.array (m.references.map Json.text)),
    Json.member "classes" (.array (m.classes.map TypeRecord.toJson)),
    Json.member "structs" (.array (m.structs.map TypeRecord.toJson)),
    Json.member "enums" (.array (m.enums.map TypeRecord.toJson)),
    Json.member "interfaces" (.array (m.interfaces.map TypeRecord.toJson)),
    Json.member "delegates" (.array (m.delegates.map TypeRecord.toJson))]

def ofJson? (j : Json) : Option ApiMetadata := do
  match ← j.fields? ["assemblyName", "references", "classes", "structs", "enums", "interfaces",
      "delegates"] with
  | [some assemblyName, some references, classes, structs, enums, interfaces, delegates] =>
    return {
      assemblyName := ← assemblyName.text?
      references := ← Json.list? Json.text? references
      classes := ← Json.listOrEmpty? TypeRecord.ofJson? classes
      structs := ← Json.listOrEmpty? TypeRecord.ofJson? structs
      enums := ← Json.listOrEmpty? TypeRecord.ofJson? enums
      interfaces := ← Json.listOrEmpty? TypeRecord.ofJson? interfaces
      delegates := ← Json.listOrEmpty? TypeRecord.ofJson? delegates }
  | _ => none

def toText (layout : Json.Layout) (m : ApiMetadata) : String := m.toJson.toText layout

def ofText? (s : String) : Option ApiMetadata := (Json.parse s).bind ofJson?

end ApiMetadata

namespace Manifest

def toJson (m : Manifest) : Json :=
  .object [Json.member "assemblyNames" (.array (m.assemblyNames.map Json.text))]

def ofJson? (j : Json) : Option Manifest := do
  match ← j.fields? ["assemblyNames"] with
  | [some names] => return ⟨← Json.list? Json.text? names⟩
  | _ => none

def toText (m : Manifest) : String := m.toJson.toText .compact

def ofText? (s : String) : Option Manifest := (Json.parse s).bind ofJson?

end Manifest

end Loom
