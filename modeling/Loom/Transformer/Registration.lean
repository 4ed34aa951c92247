import Loom.Transformer

set_option autoImplicit false

namespace Loom

namespace Draft

def typeAt (d : Draft) (index : Nat) : Except TransformError TypeDecl :=
  match d.module.types[index]? with
  | some t => .ok t
  | none => .error (.failed s!"type index {index} out of range in {d.module.name}")

def registerType (d : Draft) (category : Category) (symbols : Option SymbolTable) (t : TypeDecl) :
    Draft where
  module :=
    if d.module.isRegistered t.fullName then d.module
    else { d.module with
      registrations := d.module.registrations ++ [⟨t.fullName, category.name⟩] }
  metadata := d.metadata.push (t.describe category symbols)

def register (d : Draft) (category : Category) (symbols : Option SymbolTable) :
    List Nat → Draft × Except TransformError Unit
  | [] => (d, .ok ())
  | index :: rest =>
    match d.typeAt index with
    | .ok t => (d.registerType category symbols t).register category symbols rest
    | .error e => (d, .error e)

def checkMembers (d : Draft) : List Nat → Except TransformError Unit
  | [] => .ok ()
  | index :: rest =>
    match d.typeAt index with
    | .ok t =>
      if t.fields.isEmpty then .error (.unsupported t.fullName "enumeration declares no members")
      else d.checkMembers rest
    | .error e => .error e

def registerCall (d : Draft) (symbols : Option SymbolTable) :
    Call → Draft × Except TransformError Unit
  | .enums types =>
    -- All are checked before the first is registered.
    match d.checkMembers types with
    | .ok () => d.register .enumType symbols types
    | .error e => (d, .error e)
  | .interfaces types => d.register .interfaceType symbols types
  | .structs types => d.register .structType symbols types
  | .classes types => d.register .classType symbols types
  | .delegates single multicast =>
    match d.register .delegate symbols single with
    | (d, .ok ()) => d.register .multicastDelegate symbols multicast
    | failed => failed

end Draft

def registration : Transformer Unit where
  weave around call _ draft :=
    let (draft, result) := draft.registerCall around.symbols call
    ⟨(), draft, result⟩

end Loom
