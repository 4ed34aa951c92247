import Loom.IoError
import Loom.Module
import Loom.Path

set_option autoImplicit false

namespace Loom

inductive Level where
  | error
  | warn
  | info
  | debug
  | trace
deriving DecidableEq, Repr

namespace Level

def rank : Level → Nat
  | .error => 1
  | .warn => 2
  | .info => 3
  | .debug => 4
  | .trace => 5

def name : Level → String
  | .error => "ERROR"
  | .warn => "WARN"
  | .info => "INFO"
  | .debug => "DEBUG"
  | .trace => "TRACE"

def all : List Level := [.error, .warn, .info, .debug, .trace]

end Level

inductive Event where
  | searchDirAdded (dir : Path)
  | referenceNotFound (moduleName : String) (reference : Identity)
  | moduleLoaded (identity : Identity) (types references : Nat)
  | settingsLoading (path : Path)
  | orderUnresolved (identities : List String)
  | staleStagingFound (dir : Path)
  | fileStaged (path : Path)
  | stagingPromoted (files : Nat) (dir : Path)
  | stagingDiscarded (files : Nat) (dir : Path)
  | stagingLeft (dir : Path) (error : IoError)
  | batchStarted (modules searchDirs : Nat)
  | typesClassified (moduleName : String) (types : Nat)
  | moduleStaged (stem : String) (path : Path)
  | glueSkipped (stem : String)
  | modulesReleased (modules : Nat)
  | batchFinished (woven skipped files : Nat) (dir : Path)
  | commandFailed (message : String)
deriving DecidableEq, Repr

namespace Event

def level : Event → Level
  | .commandFailed _ => .error
  | .orderUnresolved _ | .staleStagingFound _ | .stagingLeft _ _ => .warn
  | .batchStarted _ _ | .batchFinished _ _ _ _ => .info
  | .fileStaged _ => .trace
  | _ => .debug

def target : Event → String
  | .searchDirAdded _ => "weft_weaver::resolver"
  | .referenceNotFound _ _ | .moduleLoaded _ _ _ => "weft_weaver::loader"
  | .settingsLoading _ => "weft_weaver::config"
  | .orderUnresolved _ => "weft_weaver::order"
  | .staleStagingFound _ | .fileStaged _ | .stagingPromoted _ _ | .stagingDiscarded _ _
  | .stagingLeft _ _ => "weft_weaver::output"
  | .batchStarted _ _ | .typesClassified _ _ | .moduleStaged _ _ | .glueSkipped _
  | .modulesReleased _ | .batchFinished _ _ _ _ => "weft_weaver::orchestrator"
  | .commandFailed _ => "weft"

def message : Event → String
  | .searchDirAdded dir => "Adding search directory " ++ dir.text
  | .referenceNotFound moduleName reference =>
    s!"{moduleName}: reference {reference.fullName} not found on the search path"
  | .moduleLoaded identity types references =>
    s!"Loaded {identity.fullName} ({types} types, {references} references)"
  | .settingsLoading path => "Loading configuration from " ++ path.text
  | .orderUnresolved identities =>
    "Unresolvable module references among: " ++ ", ".intercalate identities
      ++ "; keeping their input order"
  | .staleStagingFound dir => "Removing stale staging directory " ++ dir.text
  | .fileStaged path => "Staged " ++ path.text
  | .stagingPromoted files dir => s!"Promoted {files} files from {dir.text}"
  | .stagingDiscarded files dir => s!"Discarded {files} staged files in {dir.text}"
  | .stagingLeft dir error => s!"Failed to remove staging directory {dir.text}: {error.message}"
  | .batchStarted modules searchDirs =>
    s!"Weaving {modules} modules with {searchDirs} search directories"
  | .typesClassified moduleName types => s!"{moduleName}: {types} types classified"
  | .moduleStaged stem path => s!"{stem}: staged {path.text}"
  | .glueSkipped stem => stem ++ ": glue module, skipped"
  | .modulesReleased modules => s!"Releasing {modules} loaded modules"
  | .batchFinished woven skipped files dir =>
    s!"Wove {woven} modules ({skipped} skipped), {files} files written to {dir.text}"
  | .commandFailed message => message

end Event

end Loom
