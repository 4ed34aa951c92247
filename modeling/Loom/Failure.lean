import Loom.Module.Format
import Loom.Module.Verification
import Loom.Path
import Loom.Symbols

set_option autoImplicit false

namespace Loom

inductive TransformError where
  | unsupported (typeName reason : String)
  | failed (message : String)
deriving DecidableEq, Repr

def TransformError.message : TransformError → String
  | .unsupported typeName reason => s!"Cannot weave {typeName}: {reason}"
  | .failed message => message

inductive Failure where
  | referenceDirNotFound (dir : Path)
  | moduleNotFound (path : Path)
  | duplicateOutput (stem : String) (first second : Path)
  | load (path : Path) (cause : ReadError)
  | symbols (path : Path) (cause : ReadError)
  | symbolMismatch (path : Path) (expected found : String)
  | transform (moduleName : String) (cause : TransformError)
  | verify (moduleName : String) (cause : VerifyError)
  | io (path : Path) (cause : IoError)
  | json (path : Path) (cause : String)
  | batch (stem : String) (cause : Failure)
deriving DecidableEq, Repr

inductive FailureKind where
  | configuration
  | notFound
  | transform
  | io
deriving DecidableEq, Repr

namespace Failure

def message : Failure → String
  | .referenceDirNotFound dir => "Reference directory does not exist: " ++ dir.text
  | .moduleNotFound path => "Target module not found: " ++ path.text
  | .duplicateOutput stem first second =>
    s!"Targets {first.text} and {second.text} both produce output {stem}"
  | .load path cause => s!"Failed to load module {path.text}: {Module.wording.read cause}"
  | .symbols path cause => s!"Failed to load symbols {path.text}: {SymbolTable.wording.read cause}"
  | .symbolMismatch path expected found =>
    s!"Symbol file {path.text} belongs to module {found}, expected {expected}"
  | .transform moduleName cause => s!"Failed to weave {moduleName}: {cause.message}"
  | .verify moduleName cause => s!"Rewritten module {moduleName} is invalid: {cause.message}"
  | .io path cause => s!"I/O error on {path.text}: {cause.message}"
  | .json path cause => s!"Failed to serialize {path.text}: {cause}"
  | .batch stem _ => "Weaving batch failed at module " ++ stem

def causes : Failure → List String
  | .load _ cause => Module.wording.read cause :: cause.causes
  | .symbols _ cause => SymbolTable.wording.read cause :: cause.causes
  | .transform _ cause => [cause.message]
  | .verify _ cause => [cause.message]
  | .io _ cause => [cause.message]
  | .json _ cause => [cause]
  | .batch _ cause => cause.message :: cause.causes
  | .referenceDirNotFound _ | .moduleNotFound _ | .duplicateOutput _ _ _ | .symbolMismatch _ _ _ => []

def kind : Failure → FailureKind
  | .referenceDirNotFound _ | .duplicateOutput _ _ _ => .configuration
  | .moduleNotFound _ => .notFound
  | .transform _ _ | .verify _ _ => .transform
  | .load _ _ | .symbols _ _ | .symbolMismatch _ _ _ | .io _ _ | .json _ _ => .io
  | .batch _ cause => cause.kind

end Failure

end Loom
