import Loom.Module

set_option autoImplicit false

namespace Loom

inductive Category where
  | classType
  | structType
  | enumType
  | interfaceType
  | multicastDelegate
  | delegate
deriving DecidableEq, Repr

namespace Category

def all : List Category :=
  [.classType, .structType, .enumType, .interfaceType, .multicastDelegate, .delegate]

def name : Category → String
  | .classType => "class"
  | .structType => "struct"
  | .enumType => "enum"
  | .interfaceType => "interface"
  | .multicastDelegate => "multicastDelegate"
  | .delegate => "delegate"

def ofName? (name : String) : Option Category := all.find? (·.name = name)

end Category

structure ReflectionNames where
  classAttribute : String := "Weft.HostClass"
  structAttribute : String := "Weft.HostStruct"
  enumAttribute : String := "Weft.HostEnum"
  interfaceAttribute : String := "Weft.HostInterface"
  multicastDelegateBase : String := "Weft.MulticastDelegate"
  delegateBase : String := "Weft.Delegate"
  generatedAttribute : String := "Weft.Generated"
deriving DecidableEq, Repr

namespace ReflectionNames

def classifyBase (names : ReflectionNames) (base : TypeRef) : Option Category :=
  if base.openName = names.multicastDelegateBase then some .multicastDelegate
  else if base.openName = names.delegateBase then some .delegate
  else none

def classify (names : ReflectionNames) (t : TypeDecl) : Option Category :=
  match t.kind with
  | .classType =>
    if t.hasAttribute names.classAttribute then some .classType
    else t.base.bind names.classifyBase
  | .enumType => if t.hasAttribute names.enumAttribute then some .enumType else none
  | .valueType => if t.hasAttribute names.structAttribute then some .structType else none
  | .interfaceType => if t.hasAttribute names.interfaceAttribute then some .interfaceType else none

def mark (names : ReflectionNames) (t : TypeDecl) : TypeDecl :=
  if (names.classify t).isSome then t.addAttributeOnce names.generatedAttribute else t

end ReflectionNames

structure Categorized where
  classes : List Nat := []
  structs : List Nat := []
  enums : List Nat := []
  interfaces : List Nat := []
  multicastDelegates : List Nat := []
  delegates : List Nat := []
deriving DecidableEq, Repr

namespace Categorized

def get (c : Categorized) : Category → List Nat
  | .classType => c.classes
  | .structType => c.structs
  | .enumType => c.enums
  | .interfaceType => c.interfaces
  | .multicastDelegate => c.multicastDelegates
  | .delegate => c.delegates

def push (c : Categorized) (category : Category) (index : Nat) : Categorized :=
  match category with
  | .classType => { c with classes := c.classes ++ [index] }
  | .structType => { c with structs := c.structs ++ [index] }
  | .enumType => { c with enums := c.enums ++ [index] }
  | .interfaceType => { c with interfaces := c.interfaces ++ [index] }
  | .multicastDelegate => { c with multicastDelegates := c.multicastDelegates ++ [index] }
  | .delegate => { c with delegates := c.delegates ++ [index] }

def size (c : Categorized) : Nat := Category.all.foldl (fun n category => n + (c.get category).length) 0

def file (names : ReflectionNames) (start : Nat) (c : Categorized) : List TypeDecl → Categorized
  | [] => c
  | t :: rest =>
    match names.classify t with
    | some category => file names (start + 1) (c.push category start) rest
    | none => file names (start + 1) c rest

end Categorized

def Module.classify (m : Module) (names : ReflectionNames) : Module × Categorized :=
  ({ m with types := m.types.map names.mark }, Categorized.file names 0 {} m.types)

end Loom
