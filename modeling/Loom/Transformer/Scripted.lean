import Loom.Transformer.Registration

set_option autoImplicit false

/-! A transformer for trying out how a batch copes with one: it keeps a record of its calls, and fails where it is
told to. -/
namespace Loom

def Call.step : Call → String
  | .enums _ => "enums"
  | .interfaces _ => "interfaces"
  | .structs _ => "structs"
  | .classes _ => "classes"
  | .delegates _ _ => "delegates"

def showIndices (indices : List Nat) : String :=
  "[" ++ ", ".intercalate (indices.map toString) ++ "]"

def Call.describe : Call → String
  | .enums types => "enums" ++ showIndices types
  | .interfaces types => "interfaces" ++ showIndices types
  | .structs types => "structs" ++ showIndices types
  | .classes types => "classes" ++ showIndices types
  | .delegates single multicast => "delegates" ++ showIndices single ++ showIndices multicast

structure Script where
  register : List Registration := []
  failStep : Option String := none
  failModule : Option String := none
  error : TransformError := .failed "injected"
  forward : Bool := true
deriving DecidableEq, Repr

def Script.fails (s : Script) (moduleName : String) (call : Call) : Bool :=
  s.failStep = some call.step && (s.failModule.isNone || s.failModule = some moduleName)

def scripted (s : Script) : Transformer (List String) where
  weave around call calls draft :=
    let calls := calls ++ [draft.module.name ++ ":" ++ call.describe]
    let module := { draft.module with registrations := draft.module.registrations ++ s.register }
    let draft := { draft with module := module }
    if s.fails module.name call then ⟨calls, draft, .error s.error⟩
    else if s.forward then
      let (draft, result) := draft.registerCall around.symbols call
      ⟨calls, draft, result⟩
    else ⟨calls, draft, .ok ()⟩

def idle : Transformer (List String) where
  weave _ _ calls draft := ⟨calls, draft, .ok ()⟩

end Loom
