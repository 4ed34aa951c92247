import Loom.Failure
import Loom.Metadata
import Loom.SearchPath

set_option autoImplicit false

namespace Loom

inductive Call where
  | enums (types : List Nat)
  | interfaces (types : List Nat)
  | structs (types : List Nat)
  | classes (types : List Nat)
  | delegates (single multicast : List Nat)
deriving DecidableEq, Repr

structure Draft where
  module : Module
  metadata : ApiMetadata
deriving DecidableEq, Repr

structure Surroundings where
  search : SearchPath
  symbols : Option SymbolTable
deriving DecidableEq, Repr

structure Woven (σ : Type) where
  state : σ
  draft : Draft
  result : Except TransformError Unit

structure Transformer (σ : Type) where
  weave : Surroundings → Call → σ → Draft → Woven σ

namespace Categorized

def calls (c : Categorized) : List Call :=
  (if c.enums.isEmpty then [] else [Call.enums c.enums])
    ++ (if c.interfaces.isEmpty then [] else [Call.interfaces c.interfaces])
    ++ (if c.structs.isEmpty then [] else [Call.structs c.structs])
    ++ (if c.classes.isEmpty then [] else [Call.classes c.classes])
    ++ (if c.delegates.isEmpty && c.multicastDelegates.isEmpty then []
      else [Call.delegates c.delegates c.multicastDelegates])

end Categorized

namespace Transformer

variable {σ : Type}

def weaveCalls (t : Transformer σ) (around : Surroundings) (state : σ) (draft : Draft) :
    List Call → Woven σ
  | [] => ⟨state, draft, .ok ()⟩
  | call :: rest =>
    let woven := t.weave around call state draft
    match woven.result with
    | .ok () => weaveCalls t around woven.state woven.draft rest
    | .error _ => woven

def dispatch (t : Transformer σ) (around : Surroundings) (types : Categorized) (state : σ)
    (draft : Draft) : Woven σ :=
  t.weaveCalls around state draft types.calls

end Transformer

end Loom
