import Loom.Loading
import Loom.Metadata.Json

set_option autoImplicit false

namespace Loom

structure StagedModule where
  module : Path
  metadata : Path
  symbols : Option Path
deriving DecidableEq, Repr

def StagedModule.paths (s : StagedModule) : List Path := s.module :: s.metadata :: s.symbols.toList

structure StagingArea where
  dir : Path
  layout : Json.Layout
  staged : List Path
deriving DecidableEq, Repr

namespace StagingArea

def layoutOf (pretty : Bool) : Json.Layout := if pretty then .pretty else .compact

def orIo (path : Path) : Except IoError Unit → Task Failure Unit := Task.orFail (.io path)

def create (outputDir : Path) (name : String) (pretty : Bool) : Task Failure StagingArea := do
  let dir := outputDir.join name.toList
  if (← Task.kindOf dir).isSome then do
    Task.tell (.staleStagingFound dir)
    .removeTree dir (orIo dir)
  .makeDirs dir (orIo dir)
  return ⟨dir, layoutOf pretty, []⟩

def reportStaged {ε : Type} : List Path → Task ε Unit
  | [] => return ()
  | path :: rest => do
    Task.tell (.fileStaged path)
    reportStaged rest

def writeSymbols (modulePath : Path) : Option SymbolTable → Task Failure (Option Path)
  | none => return none
  | some table => do
    let path := symbolPath modulePath
    Task.writeFile path table.encode (.io path)
    return some path

def write (area : StagingArea) (fileName : String) (module : Module) (symbols : Option SymbolTable)
    (metadata : ApiMetadata) : Task Failure (StagedModule × StagingArea) := do
  Task.orFail (.verify module.name) module.verify
  let modulePath := area.dir.join fileName.toList
  Task.writeFile modulePath module.encode (.io modulePath)
  let symbolsPath ← writeSymbols modulePath symbols
  let metadataFile := metadataPath modulePath
  Task.writeFile metadataFile (Bytes.ofText (metadata.toText area.layout)) (.io metadataFile)
  let staged : StagedModule := ⟨modulePath, metadataFile, symbolsPath⟩
  reportStaged staged.paths
  return (staged, { area with staged := area.staged ++ staged.paths })

def copyInto (outputDir : Path) : List Path → Task Failure (List Path)
  | [] => return []
  | path :: rest =>
    match path.fileName? with
    | none => copyInto outputDir rest
    | some name => do
      let target := outputDir.join name
      .copy path target (orIo target)
      return target :: (← copyInto outputDir rest)

def promote (area : StagingArea) (outputDir : Path) : Task Failure (List Path) := do
  let promoted ← copyInto outputDir area.staged
  .removeTree area.dir (orIo area.dir)
  Task.tell (.stagingPromoted promoted.length area.dir)
  return promoted

def abandon {ε : Type} (area : StagingArea) : Task ε Unit :=
  .removeTree area.dir fun
    | .ok () => Task.tell (.stagingDiscarded area.staged.length area.dir)
    | .error error => Task.tell (.stagingLeft area.dir error)

end StagingArea

def writeManifest (outputDir : Path) (name : String) (manifest : Manifest) : Task Failure Path := do
  let path := outputDir.join name.toList
  Task.writeFile path (Bytes.ofText manifest.toText) (.io path)
  return path

end Loom
