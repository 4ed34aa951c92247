import Loom.Proofs.Batch.Contents
import Loom.Proofs.Batch.Delivery
import Loom.Proofs.Batch.Replanning

set_option autoImplicit false

/-! A woven module is paired with symbols by the name of its file alone, also with such as an earlier batch has left
there. -/
namespace Loom.Batch

open Loom.Path Loom.Task StagingArea FileSystem

variable {σ : Type}

section CarriedOut

variable {t : Transformer σ} {settings : Settings} {request : Request} {state : σ} {fs after : FileSystem}
  {planned : Plan} {report : Report} {last : σ}
  (carried : CarriedOut t settings request state fs planned report last after)
include carried

theorem CarriedOut.file_read {file : List Char × Bytes}
    (member : file ∈ written settings (products t settings planned.search state planned.processed)) :
    ∃ content, after.read (request.outputDir.join file.1) = .ok content := by
  obtain ⟨content, last⟩ := last_written_of_mem member
  exact ⟨content, carried.finished.reported.content file.1 content last⟩

theorem CarriedOut.symbols_reached {p : Product σ}
    (inside : p ∈ products t settings planned.search state planned.processed) :
    after.Reaches (request.outputDir.join (extended p.name SymbolTable.fileExtension)) := by
  have proper := carried.finished.reported.proper p inside
  have beside := Product.symbol_name_proper proper
  have metadata := proper _ p.metadata_mem_names
  have delivered : extended p.name ApiMetadata.fileExtension ∈
      (written settings (products t settings planned.search state planned.processed)).map Prod.fst :=
    (written_names_perm _ _).mem_iff.mpr
      (List.mem_append_left _ (List.mem_flatMap.mpr ⟨p, inside, p.metadata_mem_names⟩))
  obtain ⟨file, member, named⟩ := List.mem_map.mp delivered
  obtain ⟨content, read⟩ := carried.file_read member
  rw [named] at read
  obtain ⟨legal, directories⟩ := ((read_iff _ _ _).mp read).1
  rw [passed_join after _ metadata] at directories
  refine ⟨?_, by rwa [passed_join after _ beside]⟩
  rw [Product.extended_name proper] at legal metadata beside ⊢
  exact legal_join_of_shorter metadata legal (by decide) beside (by decide)

theorem CarriedOut.symbols_delivered_iff (tree : fs.IsTree) {p : Product σ}
    (inside : p ∈ products t settings planned.search state planned.processed) (without : p.source.symbols = none) :
    extended p.name SymbolTable.fileExtension ∈
        (written settings (products t settings planned.search state planned.processed)).map Prod.fst ↔
      extended p.name SymbolTable.fileExtension = p.name ∨
      extended p.name SymbolTable.fileExtension = settings.manifestName.toList := by
  have proper := carried.finished.reported.proper
  have stems := products_stems tree carried.finished.looked t settings state
  rw [(written_names_perm _ _).mem_iff, List.mem_append, List.mem_singleton]
  refine or_congr_left ⟨fun staged => ?_, fun itself => ?_⟩
  · obtain ⟨q, inside', owned⟩ := List.mem_flatMap.mp staged
    obtain ⟨stem, owner⟩ := Product.symbol_name_owner (proper p inside) (proper q inside') owned
    have equal : q = p := List.inj_on_of_nodup_map (List.pairwise_map.mpr stems) inside' inside stem
    rw [equal, without, Option.isSome_none] at owner
    exact (owner.resolve_right Bool.false_ne_true).symm
  · rw [itself]
    exact List.mem_flatMap.mpr ⟨p, inside, List.mem_cons_self⟩

-- A module that was woven without symbols finds some in its place if it is there itself, or the manifest, or a file
-- that stood there before.
theorem CarriedOut.symbols_file_iff (sound : settings.fault = none) (tree : fs.IsTree) {p : Product σ}
    (inside : p ∈ products t settings planned.search state planned.processed) (without : p.source.symbols = none) :
    after.kind? (symbolPath (request.outputDir.join p.name)) = some .file ↔
      symbolPath (request.outputDir.join p.name) = request.outputDir.join p.name ∨
      symbolPath (request.outputDir.join p.name) = report.manifest ∨
      ∃ content, fs.get? (fs.place (symbolPath (request.outputDir.join p.name))) = some (.file content) := by
  have proper := carried.finished.reported.proper p inside
  have own := p.name_proper proper
  have beside := Product.symbol_name_proper proper
  have names := carried.symbols_delivered_iff tree inside without
  rw [symbol_path_join _ own, kind_file_iff beside (carried.symbols_reached inside), place_join fs _ beside,
    place_congr carried.delivered.here, carried.finished.reported.manifest]
  by_cases delivered : extended p.name SymbolTable.fileExtension ∈
      (written settings (products t settings planned.search state planned.processed)).map Prod.fst
  · obtain ⟨file, member, named⟩ := List.mem_map.mp delivered
    obtain ⟨content, last⟩ := last_written_of_mem member
    refine iff_of_true ⟨content, named ▸ carried.delivered.written file.1 content last⟩ ?_
    exact (names.mp delivered).imp (congrArg _) fun manifest => .inl (congrArg _ manifest)
  · obtain ⟨itself, manifest⟩ := not_or.mp (mt names.mpr delivered)
    have apart : ∀ file ∈ written settings (products t settings planned.search state planned.processed),
        fs.place request.outputDir ++ [extended p.name SymbolTable.fileExtension] ≠
          fs.place request.outputDir ++ [file.1] := by
      intro file member same
      exact delivered (List.mem_map.mpr ⟨file, member, (List.singleton_inj.mp (List.append_cancel_left same)).symm⟩)
    have outside : ¬ Below (fs.place request.outputDir ++ [settings.stagingDir.toList])
        (fs.place request.outputDir ++ [extended p.name SymbolTable.fileExtension]) :=
      fun below => sibling_outside below.2.symm below.1
    simp only [carried.delivered.otherFiles _ apart outside]
    rw [or_iff_right fun same => itself (join_injective _ beside own same),
      or_iff_right fun same => manifest (join_injective _ beside (Settings.names_of_sound sound).2 same)]

end CarriedOut

theorem landed_loads_iff {names : ReflectionNames} {references : List String} {o : Path} {loaded : LoadedModule}
    {files : FileSystem} (landed : Landed names references o files loaded) :
    LoadedModule.Loads files true
        ⟨loaded.module.rewritten names, o.join loaded.fileName.toList, loaded.symbols, []⟩ ↔
      SymbolsBeside files (o.join loaded.fileName.toList) loaded.module.name loaded.symbols := by
  constructor
  · exact fun loads => loads.symbols
  · intro beside
    obtain ⟨bytes, read, decoded⟩ := landed.module
    exact ⟨kind_of_read read, ⟨bytes, read, decoded⟩, beside⟩

/-- A module that was woven without symbols is loaded so if no file is in their place. -/
theorem woven_modules_reload_iff {ε : Type} (settings : Settings) (request : Request) (fs : FileSystem)
    (sound : settings.validate = .ok settings) (tree : fs.IsTree) {report : Report}
    (done : ((run registration settings request () : Task ε _).run fs).result = .ok (.ok report, ()))
    (distinct : (report.outputs ++ [report.manifest]).Nodup)
    (lengths : ∀ planned,
      ((plan request.references request.targets settings.readSymbols).run fs).result = .ok planned →
        ∀ loaded ∈ planned.toWeave settings, (loaded.module.rewritten settings.reflection).LengthsFit) :
    ∃ planned, ((plan request.references request.targets settings.readSymbols).run fs).result = .ok planned ∧
      ∀ loaded ∈ planned.toWeave settings,
        let files := ((run registration settings request () : Task ε _).run fs).files
        let path := request.outputDir.join loaded.fileName.toList
        ∀ search : SearchPath,
          (∃ references, ((loadModule search true path).run files).result =
            .ok ⟨loaded.module.rewritten settings.reflection, path, loaded.symbols, references⟩) ↔
          loaded.symbols.isSome = true ∨
            symbolPath path ≠ path ∧ symbolPath path ≠ report.manifest ∧
              ∀ content, fs.get? (fs.place (symbolPath path)) ≠ some (.file content) := by
  have faultless := Settings.fault_of_validate sound
  obtain ⟨planned, carried⟩ := run_carried_out faultless tree done
  have plan := carried.finished.plan
  refine ⟨planned, plan, fun loaded woven => ?_⟩
  intro files path search
  obtain ⟨p, inside, rfl⟩ := product_of_woven registration () woven
  have landed := product_landed carried.finished inside distinct (lengths planned plan _ woven)
  have loads := ((looks_plan_from _ _ _).done planned plan).2.loads _ (processed_mem (List.mem_filter.mp woven).1)
  refine (load_module_iff search true ⟨_, path, p.source.symbols, []⟩).trans ((landed_loads_iff landed).trans ?_)
  cases has : p.source.symbols with
  | none =>
      have file := carried.symbols_file_iff faultless tree inside has
      refine (not_congr file).trans ?_
      simp only [not_or, not_exists, Option.isSome_none, Bool.false_eq_true, false_or]
      rfl
  | some table =>
      refine iff_of_true ?_ (.inl rfl)
      obtain ⟨bytes, read, decoded⟩ := landed.symbols table has
      exact ⟨kind_of_read read, loads.own_symbols has, bytes, read, decoded⟩

theorem core_and_game_reload :
    let module (name : String) : Module := ⟨Module.magicNumber, 1, 0, ⟨name, "1"⟩, [], [], [], none⟩
    let table (document : String) : SymbolTable := ⟨"Core", [⟨"Foe", document, 3⟩]⟩
    let fs := ((((((((⟨[], []⟩ : FileSystem).write "Core.wbc" (module "Core").encode).2.write "Core.wsym"
      (table "foe.weft").encode).2.write "Game.wbc" (module "Game").encode).2.makeDirs "out").2).write "out/Core.wsym"
      (table "old.weft").encode).2)
    let request : Request := ⟨[], ["Core.wbc", "Game.wbc"], "out"⟩
    let files := ((run registration {} request () : Task Failure _).run fs).files
    (∃ references, ((loadModule {} true "out/Core.wbc").run files).result =
        .ok ⟨(module "Core").rewritten {}, "out/Core.wbc", some (table "foe.weft"), references⟩) ∧
      ∃ references, ((loadModule {} true "out/Game.wbc").run files).result =
        .ok ⟨(module "Game").rewritten {}, "out/Game.wbc", none, references⟩ := by
  intro module table fs request files
  let core : LoadedModule := ⟨module "Core", "Core.wbc", some (table "foe.weft"), []⟩
  let game : LoadedModule := ⟨module "Game", "Game.wbc", none, []⟩
  let planned : Plan := ⟨{}, [core, game], [0, 1]⟩
  let report : Report := ⟨["out/Core.wbc", "out/Core.metadata.json", "out/Core.wsym", "out/Game.wbc",
    "out/Game.metadata.json"], ["Core", "Game"], [], "out/weft.assemblyloadorder.json"⟩
  have sound : ({} : Settings).validate = .ok {} := by decide +kernel
  have inputs := is_tree_write (is_tree_write (is_tree_write (empty_is_tree []) "Core.wbc" (module "Core").encode)
    "Core.wsym" (table "foe.weft").encode) "Game.wbc" (module "Game").encode
  have tree : fs.IsTree := is_tree_write (make_dirs_grows inputs "out").2 _ _
  have done : ((run registration {} request () : Task Failure _).run fs).result = .ok (.ok report, ()) := by
    decide +kernel
  have distinct : (report.outputs ++ [report.manifest]).Nodup := by decide +kernel
  have planning : ((plan request.references request.targets true).run fs).result = .ok planned := by decide +kernel
  have lengths : ∀ other, ((plan request.references request.targets true).run fs).result = .ok other →
      ∀ loaded ∈ other.toWeave {}, (loaded.module.rewritten {}).LengthsFit := by
    intro other same
    rw [← Except.ok.inj (planning.symm.trans same)]
    decide +kernel
  obtain ⟨other, same, reload⟩ := woven_modules_reload_iff {} request fs sound tree done distinct lengths
  rw [← Except.ok.inj (planning.symm.trans same)] at reload
  have place : request.outputDir.join core.fileName.toList = "out/Core.wbc" ∧
      request.outputDir.join game.fileName.toList = "out/Game.wbc" := by decide +kernel
  have symbolsPath : symbolPath "out/Game.wbc" = "out/Game.wsym" := by decide +kernel
  have absent : fs.get? (fs.place "out/Game.wsym") = none := by decide +kernel
  have woven : core ∈ planned.toWeave {} ∧ game ∈ planned.toWeave {} := by decide +kernel
  have first := (reload core woven.1 {}).mpr (.inl rfl)
  have second := (reload game woven.2 {}).mpr
  rw [place.1] at first
  rw [place.2, symbolsPath, absent] at second
  exact ⟨first, second (.inr ⟨by decide, by decide, fun _ same => by cases same⟩)⟩

/-- Game is woven without symbols, and the file of an earlier batch gives it some. -/
theorem game_takes_leftover_symbols :
    let game : Module := ⟨Module.magicNumber, 1, 0, ⟨"Game", "1"⟩, [], [], [], none⟩
    let leftover : SymbolTable := ⟨"Game", [⟨"Foe", "foe.weft", 3⟩]⟩
    let fs := (((((⟨[], []⟩ : FileSystem).write "Game.wbc" game.encode).2.makeDirs "out").2).write "out/Game.wsym"
      leftover.encode).2
    let request : Request := ⟨[], ["Game.wbc"], "out"⟩
    let report : Report := ⟨["out/Game.wbc", "out/Game.metadata.json"], ["Game"], [], "out/weft.assemblyloadorder.json"⟩
    let once := (run registration {} request () : Task Failure _).run fs
    ({} : Settings).validate = .ok {} ∧ fs.IsTree ∧ once.result = .ok (.ok report, ()) ∧
      (report.outputs ++ [report.manifest]).Nodup ∧
      ((plan request.references request.targets true).run fs).result = .ok ⟨{}, [⟨game, "Game.wbc", none, []⟩], [0]⟩ ∧
      (game.rewritten {}).LengthsFit ∧
      ((loadModule {} true "out/Game.wbc").run once.files).result =
        .ok ⟨game.rewritten {}, "out/Game.wbc", some leftover, []⟩ := by
  intro game leftover fs request report once
  have tree : fs.IsTree :=
    is_tree_write (make_dirs_grows (is_tree_write (empty_is_tree []) "Game.wbc" game.encode) "out").2 _ _
  exact ⟨by decide +kernel, tree, by decide +kernel, by decide +kernel, by decide +kernel, by decide +kernel,
    by decide +kernel⟩

end Loom.Batch
