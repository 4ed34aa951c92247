import Loom.Proofs.Batch.PlannedOrder

set_option autoImplicit false

/-! A batch planned once more has the same plan but for the files that references are resolved to, and weaving does
not look at those. -/
namespace Loom

open Loom.Task StagingArea

variable {fs after : FileSystem}

namespace Batch

def Request.targetPaths (request : Request) : List Path :=
  request.targets.map fun target => Path.ofString (Text.unquote target)

def Request.referenceDirs (request : Request) : List Path :=
  request.references.filterMap fun reference => SearchPath.dirOf? (Text.unquote reference)

def Plan.bare (planned : Plan) : Plan := { planned with modules := planned.modules.map LoadedModule.bare }

theorem processed_map (planned : Plan) (f : LoadedModule → LoadedModule) :
    ({ planned with modules := planned.modules.map f } : Plan).processed = planned.processed.map f := by
  unfold Plan.processed
  rw [List.map_filterMap]
  simp only [List.getElem?_map]

theorem processed_bare (planned : Plan) : planned.bare.processed = planned.processed.map LoadedModule.bare :=
  processed_map planned LoadedModule.bare

theorem stems_bare (modules : List LoadedModule) :
    (modules.map LoadedModule.bare).map LoadedModule.stem = modules.map LoadedModule.stem := by
  rw [List.map_map]
  rfl

theorem order_nodes_of_bare {modules again : List LoadedModule}
    (same : again.map LoadedModule.bare = modules.map LoadedModule.bare) :
    again.map (·.module.orderNode) = modules.map (·.module.orderNode) := by
  have bare := congrArg (List.map fun loaded : LoadedModule => loaded.module.orderNode) same
  rwa [List.map_map, List.map_map] at bare

structure PlannedFrom (fs : FileSystem) (references : List String) (readSymbols : Bool) (planned : Plan) : Prop where
  search : ((SearchPath.ofReferences references).run fs).result = .ok planned.search
  loads : ∀ loaded ∈ planned.modules, loaded.Loads fs readSymbols

theorem looks_plan_from (references targets : List String) (readSymbols : Bool) :
    (plan references targets readSymbols).Looks fs (PlannedFrom fs references readSymbols) Failure.Plain := by
  unfold plan
  apply looks_then (looks_result (SearchPath.looks_add_all {} references))
  intro search searched
  apply looks_then (looks_load_modules search readSymbols targets)
  intro modules facts
  split
  · rename_i failure found
    exact looks_fail (duplicate_output_plain found)
  · exact looks_then (looks_order_nodes _) fun order _ => looks_pure ⟨searched.2, facts.2⟩

def Plan.ofModules (search : SearchPath) (modules : List LoadedModule) : Plan :=
  ⟨search, modules, (LoadOrder.ofNodes (modules.map (·.module.orderNode))).order⟩

theorem Plan.of_modules_eq {planned : Plan} (ordered : planned.order = (LoadOrder.ofNodes planned.nodes).order) :
    Plan.ofModules planned.search planned.modules = planned := by
  rw [Plan.ofModules, ← Plan.nodes, ← ordered]

theorem looks_plan_of_loads {references targets : List String} {readSymbols : Bool} {search : SearchPath}
    {modules : List LoadedModule} (searching : (SearchPath.ofReferences references).Looks fs (· = search) fun _ => False)
    (origins : modules.map (·.origin) = targets.map fun target => Path.ofString (Text.unquote target))
    (loads : ∀ loaded ∈ modules, loaded.Loads fs readSymbols) (stems : (modules.map LoadedModule.stem).Nodup) :
    (plan references targets readSymbols).Looks fs
      (fun planned => planned.bare = (Plan.ofModules search modules).bare) fun _ => False := by
  unfold plan
  apply looks_then searching
  rintro search rfl
  apply looks_then (looks_load_modules_again origins loads search)
  intro again same
  have distinct : (again.map LoadedModule.stem).Nodup := by
    rw [← stems_bare, same, stems_bare]
    exact stems
  rw [(duplicate_output_eq_none_iff [] again).mpr ⟨distinct, fun _ _ => List.forall_mem_nil _⟩]
  apply looks_then (looks_order_eq _)
  rintro _ rfl
  apply looks_pure
  rw [order_nodes_of_bare same]
  unfold Plan.bare Plan.ofModules
  rw [same]

theorem looks_plan_again {references targets : List String} {readSymbols : Bool} {planned : Plan}
    (made : ((plan references targets readSymbols).run fs).result = .ok planned)
    (loads : ∀ loaded ∈ planned.modules, loaded.Loads after readSymbols)
    (dirs : ∀ raw ∈ references, ∀ dir ∈ SearchPath.dirOf? (Text.unquote raw), after.kind? dir = fs.kind? dir) :
    (plan references targets readSymbols).Looks after (fun again => again.bare = planned.bare) fun _ => False := by
  have looked := ((looks_plan references targets readSymbols).done planned made).2
  have ordered := ((looks_plan_order references targets readSymbols).done planned made).2
  have search := ((looks_plan_from references targets readSymbols).done planned made).2.search
  have searching : (SearchPath.ofReferences references).Looks after (· = planned.search) fun _ => False :=
    looks_of_result ((SearchPath.add_all_again {} references dirs).trans search)
      (looks_files (SearchPath.looks_add_all {} references))
  have planning := looks_plan_of_loads searching looked.origins loads looked.stems
  rwa [Plan.of_modules_eq ordered] at planning

def openStaging (settings : Settings) (request : Request) (planned : Plan) : Task Failure StagingArea := do
  Task.tell (.batchStarted planned.modules.length planned.search.dirs.length)
  .makeDirs request.outputDir (orIo request.outputDir)
  StagingArea.create request.outputDir settings.stagingDir settings.prettyMetadata

theorem run_prepare {settings : Settings} (request : Request) {fs : FileSystem} {planned : Plan}
    (planning : ((plan request.references request.targets settings.readSymbols).run fs).result = .ok planned) :
    ((prepare settings request).run fs).result = ((openStaging settings request planned).run fs).result.map (planned, ·) ∧
      ((prepare settings request).run fs).files = ((openStaging settings request planned).run fs).files := by
  have split : prepare settings request = (plan request.references request.targets settings.readSymbols).bind
      fun planned => (planned, ·) <$> openStaging settings request planned := by
    unfold prepare openStaging
    refine congrArg (Task.bind _) (funext fun planned => ?_)
    simp only [map_bind]
    rfl
  rw [split, run_bind, planning, looks_files (looks_plan _ _ _)]
  dsimp only
  rw [run_map]
  exact ⟨rfl, rfl⟩

variable {σ : Type}

theorem weave_all_bare {ε : Type} (t : Transformer σ) (settings : Settings) (search : SearchPath)
    (progress : Progress σ) (modules : List LoadedModule) :
    (weaveAll t settings search progress (modules.map LoadedModule.bare) : Task ε _) =
      weaveAll t settings search progress modules := by
  induction modules generalizing progress with
  | nil => rfl
  | cons loaded rest ih =>
      rw [List.map_cons, weaveAll, weaveAll]
      simp only [ih]
      rfl

theorem weave_all_of_bare {ε : Type} (t : Transformer σ) (settings : Settings) (progress : Progress σ)
    {again planned : Plan} (same : again.bare = planned.bare) :
    (weaveAll t settings again.search progress again.processed : Task ε _) =
      weaveAll t settings planned.search progress planned.processed := by
  have search : again.search = planned.search := (Plan.mk.inj same).1
  rw [← weave_all_bare, ← weave_all_bare _ _ planned.search, ← processed_bare, ← processed_bare, same, search]

end Batch

end Loom
