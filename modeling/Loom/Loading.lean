import Loom.Metadata
import Loom.SearchPath

set_option autoImplicit false

namespace Loom

structure ResolvedReference where
  reference : Identity
  location : Option Path
deriving DecidableEq, Repr

structure LoadedModule where
  module : Module
  origin : Path
  symbols : Option SymbolTable
  references : List ResolvedReference
deriving DecidableEq, Repr

def symbolPath (modulePath : Path) : Path := modulePath.withExtension SymbolTable.fileExtension

def metadataPath (modulePath : Path) : Path := modulePath.withExtension ApiMetadata.fileExtension

namespace LoadedModule

def stem (m : LoadedModule) : String :=
  match m.origin.stem? with
  | some chars => String.ofList chars
  | none => m.module.name

def fileName (m : LoadedModule) : String :=
  match m.origin.fileName? with
  | some chars => String.ofList chars
  | none => m.module.name

end LoadedModule

def readModule (path : Path) : Task ReadError Module := do
  let bytes ← Task.readFile path .io
  Task.orFail .format (Module.decode bytes)

def readSymbolTable (path : Path) : Task ReadError SymbolTable := do
  let bytes ← Task.readFile path .io
  Task.orFail .format (SymbolTable.decode bytes)

def loadSymbols (modulePath : Path) (moduleName : String) : Task Failure (Option SymbolTable) := do
  let path := symbolPath modulePath
  if ← Task.isFile path then do
    let table ← Task.orFail (.symbols path) (← (readSymbolTable path).attempt)
    if table.moduleName = moduleName then return some table
    else .fail (.symbolMismatch path moduleName table.moduleName)
  else return none

def resolveReference {ε : Type} (search : SearchPath) (moduleName : String) (reference : Identity) :
    Task ε ResolvedReference := do
  match ← search.resolve reference with
  | some path => return ⟨reference, some path⟩
  | none => do
    Task.tell (.referenceNotFound moduleName reference)
    return ⟨reference, none⟩

def loadModule (search : SearchPath) (readSymbols : Bool) (path : Path) :
    Task Failure LoadedModule := do
  if ← Task.isFile path then do
    let module ← Task.orFail (.load path) (← (readModule path).attempt)
    let symbols ← if readSymbols then loadSymbols path module.name else pure none
    let references ← Task.each (resolveReference search module.name) module.references
    return ⟨module, path, symbols, references⟩
  else .fail (.moduleNotFound path)

def firstMissing {ε : Type} : List Path → Task ε (Option Path)
  | [] => return none
  | path :: rest => do
    if ← Task.isFile path then firstMissing rest else return some path

def loadReporting (search : SearchPath) (readSymbols : Bool) (path : Path) :
    Task Failure LoadedModule := do
  let loaded ← loadModule search readSymbols path
  Task.tell (.moduleLoaded loaded.module.identity loaded.module.types.length loaded.references.length)
  return loaded

def loadModules (search : SearchPath) (readSymbols : Bool) (targets : List String) :
    Task Failure (List LoadedModule) := do
  let paths := targets.map fun target => Path.ofString (Text.unquote target)
  -- Nothing is read before all targets are known to be files.
  match ← firstMissing paths with
  | some path => .fail (.moduleNotFound path)
  | none => Task.each (loadReporting search readSymbols) paths

end Loom
