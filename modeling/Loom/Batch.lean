import Loom.LoadOrder
import Loom.Settings
import Loom.Staging
import Loom.Transformer

set_option autoImplicit false

/-! Targets are loaded and ordered, woven one after another into a staging area, and put in their place together. -/
namespace Loom.Batch

structure Request where
  references : List String
  targets : List String
  outputDir : Path
deriving DecidableEq, Repr

structure Report where
  outputs : List Path
  loadOrder : List String
  skipped : List String
  manifest : Path
deriving DecidableEq, Repr

structure Plan where
  search : SearchPath
  modules : List LoadedModule
  order : List Nat
deriving DecidableEq, Repr

def duplicateOutput (seen : List LoadedModule) : List LoadedModule → Option Failure
  | [] => none
  | m :: rest =>
    match seen.find? (·.stem = m.stem) with
    | some first => some (.duplicateOutput m.stem first.origin m.origin)
    | none => duplicateOutput (seen ++ [m]) rest

def orderNodes {ε : Type} (nodes : List OrderNode) : Task ε (List Nat) := do
  let ordered := LoadOrder.ofNodes nodes
  if ordered.unresolved ≠ [] then Task.tell (.orderUnresolved ordered.unresolved)
  return ordered.order

def plan (references targets : List String) (readSymbols : Bool) : Task Failure Plan := do
  let search ← SearchPath.ofReferences references
  let modules ← loadModules search readSymbols targets
  match duplicateOutput [] modules with
  | some failure => .fail failure
  | none => do
    return ⟨search, modules, ← orderNodes (modules.map (·.module.orderNode))⟩

namespace Plan

def processed (p : Plan) : List LoadedModule := p.order.filterMap (p.modules[·]?)

end Plan

variable {σ : Type}

def weaveModule (t : Transformer σ) (names : ReflectionNames) (search : SearchPath)
    (loaded : LoadedModule) (state : σ) : Woven σ :=
  let (module, types) := loaded.module.classify names
  t.dispatch ⟨search, loaded.symbols⟩ types state
    ⟨module, { assemblyName := loaded.module.name, references := search.references }⟩

structure Progress (σ : Type) where
  state : σ
  area : StagingArea
  woven : List String
  skipped : List String

def stage (area : StagingArea) (loaded : LoadedModule) (draft : Draft) :
    Task Failure (StagedModule × StagingArea) :=
  area.write loaded.fileName (draft.module.setFlag Module.wovenFlag) loaded.symbols draft.metadata

def weaveAll {ε : Type} (t : Transformer σ) (settings : Settings) (search : SearchPath)
    (progress : Progress σ) : List LoadedModule → Task ε (Progress σ × Option (String × Failure))
  | [] => return (progress, none)
  | loaded :: rest =>
    if settings.isGlue loaded.module.name then do
      Task.tell (.glueSkipped loaded.stem)
      weaveAll t settings search { progress with skipped := progress.skipped ++ [loaded.stem] } rest
    else do
      Task.tell (.typesClassified loaded.module.name
        (loaded.module.classify settings.reflection).2.size)
      let woven := weaveModule t settings.reflection search loaded progress.state
      let progress := { progress with state := woven.state }
      match woven.result with
      | .error e => return (progress, some (loaded.stem, .transform loaded.module.name e))
      | .ok () =>
        match ← (stage progress.area loaded woven.draft).attempt with
        | .error e => return (progress, some (loaded.stem, e))
        | .ok (staged, area) => do
          Task.tell (.moduleStaged loaded.stem staged.module)
          weaveAll t settings search
            { progress with area := area, woven := progress.woven ++ [loaded.stem] } rest

def prepare (settings : Settings) (request : Request) : Task Failure (Plan × StagingArea) := do
  let planned ← plan request.references request.targets settings.readSymbols
  Task.tell (.batchStarted planned.modules.length planned.search.dirs.length)
  .makeDirs request.outputDir (StagingArea.orIo request.outputDir)
  let area ← StagingArea.create request.outputDir settings.stagingDir settings.prettyMetadata
  return (planned, area)

def commit (settings : Settings) (request : Request) (progress : Progress σ) :
    Task Failure Report := do
  let outputs ← progress.area.promote request.outputDir
  let manifest ← writeManifest request.outputDir settings.manifestName ⟨progress.woven⟩
  Task.tell (.batchFinished progress.woven.length progress.skipped.length outputs.length
    request.outputDir)
  return ⟨outputs, progress.woven, progress.skipped, manifest⟩

def run {ε : Type} (t : Transformer σ) (settings : Settings) (request : Request) (state : σ) :
    Task ε (Except Failure Report × σ) := do
  match ← (prepare settings request).attempt with
  | .error e => return (.error e, state)
  | .ok (planned, area) => do
    let (progress, stopped) ←
      weaveAll t settings planned.search ⟨state, area, [], []⟩ planned.processed
    Task.tell (.modulesReleased planned.modules.length)
    match stopped with
    | some (stem, failure) => do
      progress.area.abandon
      return (.error (.batch stem failure), progress.state)
    | none => return (← (commit settings request progress).attempt, progress.state)

end Loom.Batch
