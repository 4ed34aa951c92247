import Loom.Proofs.Batch.Contents
import Loom.Proofs.Batch.PlannedOrder

set_option autoImplicit false

namespace Loom

open Loom.Task StagingArea

namespace FileSystem

theorem read_of_written {fs : FileSystem} (tree : fs.IsTree) {p : Path} {content : Bytes}
    (done : (fs.write p content).1 = .ok ()) : (fs.write p content).2.read p = .ok content := by
  rcases write_cases fs p content with ⟨e, failed⟩ | ⟨written, reaches, unslashed, leaf⟩
  · rw [failed] at done
    cases done
  · have keeps := put_keeps tree (leaf_of_look leaf) (.file content)
    rw [written]
    exact (read_iff _ _ _).mpr ⟨keeps.reaches reaches, unslashed, look_put_file tree leaf content⟩

end FileSystem

theorem StagingArea.create_answers {fs : FileSystem} (o : Path) (name : String) (pretty : Bool) :
    (create o name pretty).Ensures fs (fun area _ => area = ⟨o.join name.toList, layoutOf pretty, []⟩)
      fun _ _ => True := by
  unfold create orIo
  simp only [ensures_bind, ensures_kind_of]
  split
  · simp only [ensures_bind, ensures_tell, ensures_remove_tree, ensures_make_dirs, ensures_or_fail, ensures_pure]
    exact ⟨fun _ _ => ⟨fun _ _ => trivial, fun _ _ => trivial⟩, fun _ _ => trivial⟩
  · simp only [ensures_pure, ensures_bind, ensures_make_dirs, ensures_or_fail]
    exact ⟨fun _ _ => trivial, fun _ _ => trivial⟩

namespace Batch

variable {σ : Type}

def Plan.toSkip (settings : Settings) (planned : Plan) : List LoadedModule :=
  planned.processed.filter fun loaded => settings.isGlue loaded.module.name

def outputNames (loaded : LoadedModule) : List (List Char) :=
  loaded.fileName.toList :: (loaded.stem.toList ++ '.' :: ApiMetadata.fileExtension) ::
    loaded.symbols.toList.map fun _ => loaded.stem.toList ++ '.' :: SymbolTable.fileExtension

theorem Product.names_eq {p : Product σ} (proper : p.Proper) (stem : p.source.stem.toList = p.stem) :
    p.names = outputNames p.source := by
  unfold Product.names namesOf outputNames
  rw [stem, Product.extended_name proper, Product.extended_name proper]
  rfl

theorem prepare_answers {fs : FileSystem} (settings : Settings) (request : Request) :
    (prepare settings request).Ensures fs
      (fun answer _ =>
        answer.2 = ⟨request.outputDir.join settings.stagingDir.toList, layoutOf settings.prettyMetadata, []⟩ ∧
        ((plan request.references request.targets settings.readSymbols).run fs).result = .ok answer.1 ∧
        Planned fs request.references request.targets answer.1)
      fun _ _ => True := by
  unfold prepare
  refine ensures_then (ensures_mono (plan_answers _ _ _) (fun _ _ facts => facts) fun _ _ _ => trivial) ?_
  intro planned after facts
  obtain ⟨_, result, looked⟩ := facts
  simp only [ensures_bind, ensures_tell, ensures_make_dirs, orIo, ensures_or_fail, ensures_pure]
  refine ⟨fun _ _ => ?_, fun _ _ => trivial⟩
  apply ensures_mono (create_answers request.outputDir settings.stagingDir settings.prettyMetadata)
  · exact fun area _ which => ⟨which, result, looked⟩
  · exact fun _ _ _ => trivial

theorem weave_all_skips {ε : Type} (t : Transformer σ) (settings : Settings) (search : SearchPath)
    (modules : List LoadedModule) (progress : Progress σ) {fs : FileSystem} :
    (weaveAll t settings search progress modules : Task ε _).Ensures fs
      (fun answer _ => answer.2 = none → answer.1.skipped = progress.skipped ++
        (modules.filter fun loaded => settings.isGlue loaded.module.name).map LoadedModule.stem)
      fun _ _ => True := by
  induction modules generalizing progress fs with
  | nil => exact (ensures_pure _).mpr fun _ => (List.append_nil _).symm
  | cons loaded rest ih =>
      rw [weaveAll]
      split
      · rename_i glue
        simp only [ensures_bind, ensures_tell, List.filter_cons, glue, if_true, List.map_cons]
        have later := @ih { progress with skipped := progress.skipped ++ [loaded.stem] } fs
        simp only [List.append_assoc, List.singleton_append] at later
        exact later
      · rename_i woven
        simp only [ensures_bind, ensures_tell, List.filter_cons, woven, Bool.false_eq_true, if_false]
        split
        · exact (ensures_pure _).mpr fun stopped => (Option.some_ne_none _ stopped).elim
        · simp only [ensures_bind, ensures_attempt]
          refine ⟨fun answer _ => ?_, fun e _ => ?_⟩
          · simp only [ensures_tell]
            exact ih _
          · exact (ensures_pure _).mpr fun stopped => (Option.some_ne_none _ stopped).elim

theorem commit_accounts {fs : FileSystem} (tree : fs.IsTree) (settings : Settings) (request : Request)
    (progress : Progress σ) :
    (commit settings request progress).Ensures fs
      (fun report after =>
        report = ⟨copiesIn request.outputDir progress.area.staged, progress.woven, progress.skipped,
          request.outputDir.join settings.manifestName.toList⟩ ∧
        after.read report.manifest = .ok (Bytes.ofText (Manifest.toText ⟨report.loadOrder⟩)))
      fun _ _ => True := by
  unfold commit writeManifest
  simp only [ensures_bind, ensures_write_file, ensures_tell, ensures_pure]
  apply ensures_mono (ensures_and (promote_answers progress.area request.outputDir)
    (ensures_tree (progress.area.promote request.outputDir) tree))
  · intro outputs promoted facts
    obtain ⟨⟨answer, _⟩, still⟩ := facts
    exact ⟨fun _ done => ⟨by rw [answer], FileSystem.read_of_written still done⟩, fun _ _ => trivial⟩
  · exact fun _ _ _ => trivial

section Looked

variable {fs : FileSystem} {references targets : List String} {planned : Plan}

theorem processed_eq (looked : Planned fs references targets planned) :
    planned.processed.map some = planned.order.map (planned.modules[·]?) := by
  rw [Plan.processed, List.map_filterMap_some_eq_filter_map_isSome, List.filter_eq_self]
  intro found member
  obtain ⟨i, listed, rfl⟩ := List.mem_map.mp member
  have inside := List.mem_range.mp (looked.order.mem_iff.mp listed)
  rw [List.getElem?_eq_getElem inside, Option.isSome_some]

theorem split_perm (looked : Planned fs references targets planned) (settings : Settings) :
    (planned.toWeave settings ++ planned.toSkip settings).Perm planned.modules := by
  have parts := List.filter_append_perm (fun loaded : LoadedModule => !settings.isGlue loaded.module.name)
    planned.processed
  simp only [Bool.not_not] at parts
  exact parts.trans (processed_perm looked)

theorem stems_of_targets (tree : fs.IsTree) (looked : Planned fs references targets planned) :
    planned.modules.map (fun loaded => some loaded.stem.toList) =
      targets.map fun target => (Path.ofString (Text.unquote target)).stem? := by
  have stems : planned.modules.map (fun loaded => some loaded.stem.toList) =
      (planned.modules.map (·.origin)).map Path.stem? := by
    rw [List.map_map]
    refine List.map_congr_left fun loaded member => ?_
    obtain ⟨d, name, origin, proper⟩ := file_name_of_file tree (looked.read loaded member).isFile
    have found : loaded.origin.stem? = some (Path.splitName name).1 := by
      rw [origin, Path.stem?, Path.file_name_join d proper, Option.map_some]
    simp only [LoadedModule.stem, Function.comp_apply, found, String.toList_ofList]
  rw [stems, looked.origins, List.map_map, Function.comp_def]

end Looked

structure Accounted (settings : Settings) (request : Request) (planned : Plan) (report : Report) : Prop where
  loaded : planned.modules.map (·.origin) = request.targets.map fun target => Path.ofString (Text.unquote target)
  order : planned.order = (LoadOrder.ofNodes planned.nodes).order
  processed : planned.processed.map some = planned.order.map (planned.modules[·]?)
  split : (planned.toWeave settings ++ planned.toSkip settings).Perm planned.modules
  loadOrder : report.loadOrder = (planned.toWeave settings).map LoadedModule.stem
  skipped : report.skipped = (planned.toSkip settings).map LoadedModule.stem
  once : (report.loadOrder ++ report.skipped).Nodup
  complete : ((report.loadOrder ++ report.skipped).map fun stem => some stem.toList).Perm
    (request.targets.map fun target => (Path.ofString (Text.unquote target)).stem?)
  outputs : report.outputs =
    (planned.toWeave settings).flatMap fun loaded => (outputNames loaded).map request.outputDir.join
  manifest : report.manifest = request.outputDir.join settings.manifestName.toList

theorem accounted_of_lists {settings : Settings} {request : Request} {fs : FileSystem} {planned : Plan}
    {report : Report} (tree : fs.IsTree) (looked : Planned fs request.references request.targets planned)
    (order : planned.order = (LoadOrder.ofNodes planned.nodes).order)
    (loadOrder : report.loadOrder = (planned.toWeave settings).map LoadedModule.stem)
    (skipped : report.skipped = (planned.toSkip settings).map LoadedModule.stem)
    (outputs : report.outputs =
      (planned.toWeave settings).flatMap fun loaded => (outputNames loaded).map request.outputDir.join)
    (manifest : report.manifest = request.outputDir.join settings.manifestName.toList) :
    Accounted settings request planned report := by
  have split := split_perm looked settings
  have stems : report.loadOrder ++ report.skipped =
      (planned.toWeave settings ++ planned.toSkip settings).map LoadedModule.stem := by
    rw [loadOrder, skipped, List.map_append]
  refine ⟨looked.origins, order, processed_eq looked, split, loadOrder, skipped, ?_, ?_, outputs, manifest⟩
  · rw [stems]
    exact (split.map LoadedModule.stem).nodup_iff.mpr looked.stems
  · rw [stems, List.map_map, ← stems_of_targets tree looked]
    exact split.map _

/-- This holds under any settings, also under such as would not be accepted. -/
theorem batch_accounts_for_targets {ε : Type} (t : Transformer σ) (settings : Settings) (request : Request)
    (state : σ) (fs : FileSystem) (tree : fs.IsTree) {report : Report} {last : σ}
    (done : ((run t settings request state : Task ε _).run fs).result = .ok (.ok report, last)) :
    ∃ planned, ((plan request.references request.targets settings.readSymbols).run fs).result = .ok planned ∧
      Accounted settings request planned report ∧
      ∃ bytes text, ((run t settings request state : Task ε _).run fs).files.read report.manifest = .ok bytes ∧
        Bytes.toText? bytes = some text ∧ Manifest.ofText? text = some ⟨report.loadOrder⟩ := by
  obtain ⟨progress, woven, comes, committed⟩ := woven_all_of_done done
  obtain ⟨planned, area, ready, wove, files⟩ := woven_all_eq_some comes
  obtain ⟨which, planning, looked⟩ := (prepare_answers settings request).done _ ready
  dsimp only at which planning looked
  subst which
  have prepared := (run_keeps_shape (prepare settings request) tree).2
  have named : ∀ loaded ∈ planned.processed, Path.IsName loaded.fileName.toList :=
    fun loaded member => file_name_proper tree (looked.read loaded (processed_mem member)).isFile
  have completed := (weave_all_completes t settings planned.search planned.processed _ prepared named).done _ wove rfl
  have skipped := (weave_all_skips t settings planned.search planned.processed _).done _ wove rfl
  have still := completed.wrote.staged.tree
  rw [files] at still
  obtain ⟨reported, manifest⟩ := (commit_accounts still settings request progress).done _ committed
  have sources := sources_of_products t settings planned.search state planned.processed
  rw [(run_of_woven_all comes).2]
  refine ⟨planned, planning, accounted_of_lists tree looked ?_ ?_ ?_ ?_ ?_, _, _, manifest,
    Bytes.to_text_of_text _, Manifest.of_text_to_text _⟩
  · exact ((looks_plan_order request.references request.targets settings.readSymbols).done _ planning).2
  · have stems := congrArg (List.map LoadedModule.stem) sources
    rw [List.map_map] at stems
    rw [reported]
    exact completed.stems.trans stems
  · rw [reported]
    exact skipped
  · have paths := congrArg (List.flatMap fun loaded => (outputNames loaded).map request.outputDir.join) sources
    rw [List.flatMap_map] at paths
    rw [reported]
    refine (completed.promised request.outputDir).trans (Eq.trans ?_ paths)
    refine List.flatMap_congr fun p inside => ?_
    have proper := completed.proper p inside
    have read := products_read looked t settings state p inside
    have stem : p.source.stem.toList = p.stem := by
      rw [stem_of_file tree read, String.toList_ofList]
      rfl
    rw [Product.paths_eq proper, Product.names_eq proper stem]
  · rw [reported]

-- Game refers to the glue, and that to Core. The glue keeps its place in the order, though it is passed over.
theorem glue_between_game_and_core_skipped :
    let named (name : String) (references : List Identity) : Module :=
      ⟨Module.magicNumber, 1, 0, ⟨name, "1"⟩, references, [], [], none⟩
    let core : SymbolTable := ⟨"Core", [⟨"Foe", "foe.weft", 3⟩]⟩
    let fs := ((((((((⟨[], []⟩ : FileSystem).write "Game.wbc" (named "Game" [⟨"ProjectGlue", "1"⟩]).encode).2).write
      "ProjectGlue.wbc" (named "ProjectGlue" [⟨"Core", "1"⟩]).encode).2).write "Core.wbc"
      (named "Core" []).encode).2).write "Core.wsym" core.encode).2
    let idle : Transformer Unit := ⟨fun _ _ state draft => ⟨state, draft, .ok ()⟩⟩
    let request : Request := ⟨[], ["Game.wbc", "ProjectGlue.wbc", "Core.wbc"], "out"⟩
    let report : Report := ⟨["out/Core.wbc", "out/Core.metadata.json", "out/Core.wsym", "out/Game.wbc",
      "out/Game.metadata.json"], ["Core", "Game"], ["ProjectGlue"], "out/weft.assemblyloadorder.json"⟩
    ((run idle {} request () : Task Failure _).run fs).result = .ok (.ok report, ()) ∧
      (∃ planned, planned.order = [2, 1, 0] ∧ (planned.toWeave {}).map LoadedModule.stem = ["Core", "Game"] ∧
        (planned.toSkip {}).map LoadedModule.stem = ["ProjectGlue"] ∧ Accounted {} request planned report) ∧
      ∃ bytes text, ((run idle {} request () : Task Failure _).run fs).files.read report.manifest = .ok bytes ∧
        Bytes.toText? bytes = some text ∧ Manifest.ofText? text = some ⟨["Core", "Game"]⟩ := by
  intro named core fs idle request report
  have tree : fs.IsTree := FileSystem.is_tree_write (FileSystem.is_tree_write (FileSystem.is_tree_write
    (FileSystem.is_tree_write (FileSystem.empty_is_tree []) _ _) _ _) _ _) _ _
  have done : ((run idle {} request () : Task Failure _).run fs).result = .ok (.ok report, ()) := by decide +kernel
  have order : ((plan [] request.targets true).run fs).result.map Plan.order = .ok [2, 1, 0] := by decide +kernel
  obtain ⟨planned, planning, accounted, manifest⟩ :=
    batch_accounts_for_targets idle {} request () fs tree done
  rw [show ((plan [] request.targets true).run fs).result = .ok planned from planning] at order
  exact ⟨done, ⟨planned, Except.ok.inj order, accounted.loadOrder.symm, accounted.skipped.symm, accounted⟩, manifest⟩

end Batch

end Loom
