import Loom.Proofs.Acceptance
import Loom.Proofs.Batch.Outputs
import Loom.Proofs.Json.Records
import Loom.Proofs.Registration

set_option autoImplicit false

namespace Loom.Batch

open Loom.Path StagingArea

variable {σ : Type}

def Plan.toWeave (settings : Settings) (planned : Plan) : List LoadedModule :=
  planned.processed.filter fun loaded => !settings.isGlue loaded.module.name

def outputsOf (o : Path) (loaded : LoadedModule) : List Path :=
  let path := o.join loaded.fileName.toList
  path :: metadataPath path :: loaded.symbols.toList.map fun _ => symbolPath path

structure Landed (names : ReflectionNames) (references : List String) (o : Path) (files : FileSystem)
    (loaded : LoadedModule) : Prop where
  module : ∃ bytes, files.read (o.join loaded.fileName.toList) = .ok bytes ∧
    Module.decode bytes = .ok (loaded.module.rewritten names)
  registered : (loaded.module.newRegistrations names).Perm
    (((loaded.module.classified names).filter fun entry => !loaded.module.isRegistered entry.2.fullName).map
      fun entry => ⟨entry.2.fullName, entry.1.name⟩)
  symbols : ∀ table ∈ loaded.symbols, ∃ bytes,
    files.read (symbolPath (o.join loaded.fileName.toList)) = .ok bytes ∧ SymbolTable.decode bytes = .ok table
  metadata : ∃ bytes text, files.read (metadataPath (o.join loaded.fileName.toList)) = .ok bytes ∧
    Bytes.toText? bytes = some text ∧
    ApiMetadata.ofText? text = some (loaded.module.record names references loaded.symbols)
  recorded : (loaded.module.record names references loaded.symbols).records.Perm
    ((loaded.module.classified names).map fun entry => entry.2.describe entry.1 loaded.symbols)

theorem woven_of_registration (settings : Settings) (search : SearchPath) (modules : List LoadedModule) :
    ∀ p ∈ products registration settings search () modules,
      p.woven = weaveModule registration settings.reflection search p.source () := by
  induction modules with
  | nil => exact List.forall_mem_nil _
  | cons loaded rest ih =>
      rw [products]
      split
      · exact ih
      · exact List.forall_mem_cons.mpr ⟨rfl, ih⟩

theorem paths_eq_outputs_of (o : Path) (p : Product σ) : p.paths o = outputsOf o p.source := by
  cases has : p.source.symbols with
  | none => simp [Product.paths, Product.name, pathsOf, StagedModule.paths, outputsOf, has]
  | some table => simp [Product.paths, Product.name, pathsOf, StagedModule.paths, outputsOf, has]

theorem product_of_woven (t : Transformer σ) (state : σ) {settings : Settings} {planned : Plan} {loaded : LoadedModule}
    (woven : loaded ∈ planned.toWeave settings) :
    ∃ p ∈ products t settings planned.search state planned.processed, p.source = loaded := by
  rw [Plan.toWeave, ← sources_of_products t settings planned.search state] at woven
  exact List.mem_map.mp woven

namespace Product

variable {p q : Product σ}

theorem symbol_name_proper (proper : p.Proper) : IsName (extended p.name SymbolTable.fileExtension) := by
  have shaped : extended p.name SymbolTable.fileExtension = ['.', '.'] ∨ _ :=
    extended_cases (p.name_proper proper) (by decide) (by decide)
  rcases shaped with dots | own
  · rw [extended_name proper] at dots
    have lengths := congrArg List.length dots
    simp [SymbolTable.fileExtension] at lengths
  · exact own

theorem symbol_name_owner (proper : p.Proper) (properOther : q.Proper)
    (own : extended p.name SymbolTable.fileExtension ∈ q.names) :
    q.stem = p.stem ∧ (q.name = extended p.name SymbolTable.fileExtension ∨ q.source.symbols.isSome = true) := by
  rw [extended_name proper] at own ⊢
  rcases mem_names_cases properOther own with first | metadata | ⟨has, beside⟩
  · refine ⟨?_, .inl first.symm⟩
    rw [stem, ← first, split_symbol_name (stem_nonempty proper)]
  · exact absurd metadata (symbol_name_ne_metadata_name proper properOther)
  · exact ⟨(List.append_cancel_right beside).symm, .inr has⟩

end Product

theorem symbol_output_iff {made : List (Product σ)} (proper : ∀ p ∈ made, p.Proper)
    (stems : made.Pairwise fun p q => p.stem ≠ q.stem) (o : Path) {p : Product σ} (inside : p ∈ made)
    (apart : p.source.symbols.isSome = true → extended p.name SymbolTable.fileExtension ≠ p.name) :
    symbolPath (o.join p.name) ∈ made.flatMap (·.paths o) ∧ symbolPath (o.join p.name) ≠ o.join p.name ↔
      p.source.symbols.isSome = true := by
  have own := p.name_proper (proper p inside)
  have beside := Product.symbol_name_proper (proper p inside)
  rw [symbol_path_join o own, paths_of_names proper]
  constructor
  · intro facts
    obtain ⟨listed, other⟩ := facts
    obtain ⟨name, member, same⟩ := List.mem_map.mp listed
    have named := join_injective o (names_proper proper name member) beside same
    obtain ⟨q, inside', owned⟩ := List.mem_flatMap.mp member
    obtain ⟨stem, owner⟩ := Product.symbol_name_owner (proper p inside) (proper q inside') (named ▸ owned)
    have equal : q = p := List.inj_on_of_nodup_map (List.pairwise_map.mpr stems) inside' inside stem
    rw [equal] at owner
    rcases owner with itself | has
    · exact absurd (congrArg o.join itself.symm) other
    · exact has
  · intro has
    obtain ⟨table, found⟩ := Option.isSome_iff_exists.mp has
    refine ⟨List.mem_map_of_mem (List.mem_flatMap.mpr ⟨p, inside, ?_⟩), fun same => ?_⟩
    · refine List.mem_cons_of_mem _ (List.mem_cons_of_mem _ (List.mem_map.mpr ⟨table, ?_, rfl⟩))
      exact Option.mem_toList.mpr found
    · exact apart has (join_injective o beside own same)

section Finished

variable {settings : Settings} {request : Request} {fs after : FileSystem} {planned : Plan} {report : Report}
  (finished : Finished registration settings request () fs planned report after) {p : Product Unit}
  (inside : p ∈ products registration settings planned.search () planned.processed)
include finished inside

theorem product_rewritten :
    p.module = p.source.module.rewritten settings.reflection ∧
      p.woven.draft.metadata =
        p.source.module.record settings.reflection (request.references.map Text.unquote) p.source.symbols := by
  obtain ⟨done, verified⟩ := finished.woven p inside
  rw [Product.module, woven_of_registration settings planned.search planned.processed p inside] at verified ⊢
  rw [woven_of_registration settings planned.search planned.processed p inside] at done
  rw [← finished.looked.references]
  exact weave_module_done done (distinct_of_verified verified)

theorem product_landed (distinct : (report.outputs ++ [report.manifest]).Nodup)
    (lengths : (p.source.module.rewritten settings.reflection).LengthsFit) :
    Landed settings.reflection (request.references.map Text.unquote) request.outputDir after p.source := by
  obtain ⟨module, metadata⟩ := product_rewritten finished inside
  have sound := (Module.verify_eq_ok_iff _).mp (finished.woven p inside).2
  have source := products_read finished.looked registration settings () p inside
  have reads : ∀ entry ∈ p.writes request.outputDir (layoutOf settings.prettyMetadata),
      after.read entry.1 = .ok entry.2 := fun entry own =>
    read_of_distinct finished.reported distinct entry
      (List.mem_append_left _ (List.mem_flatMap.mpr ⟨p, inside, own⟩))
  rw [module] at sound
  rw [Product.writes, module, metadata] at reads
  obtain ⟨moduleRead, others⟩ := List.forall_mem_cons.mp reads
  obtain ⟨symbolsRead, metadataRead⟩ := List.forall_mem_append.mp others
  have text := metadataRead _ (List.mem_singleton_self _)
  refine ⟨⟨_, moduleRead, ?_⟩, Module.new_registrations_perm _ _, fun table has => ?_,
    ⟨_, _, text, Bytes.to_text_of_text _, ApiMetadata.of_text_to_text _ _⟩, Module.records_perm _ _ _ _⟩
  · exact Module.decode_encode_with Checksum.crc32 (lengths.fits sound.magic sound.format)
  · obtain ⟨_, _, decoded⟩ := source.symbols table has
    have written := symbolsRead _ (List.mem_map_of_mem (Option.mem_toList.mpr has))
    exact ⟨_, written, SymbolTable.decode_encode (SymbolTable.fits_of_decode decoded)⟩

end Finished

/-- A module's own file may have the name that its symbols would be given. -/
theorem woven_files_read_back {ε : Type} (settings : Settings) (request : Request) (fs : FileSystem)
    (sound : settings.validate = .ok settings) (tree : fs.IsTree) {report : Report}
    (done : ((run registration settings request () : Task ε _).run fs).result = .ok (.ok report, ()))
    (distinct : (report.outputs ++ [report.manifest]).Nodup)
    (lengths : ∀ planned,
      ((plan request.references request.targets settings.readSymbols).run fs).result = .ok planned →
        ∀ loaded ∈ planned.toWeave settings, (loaded.module.rewritten settings.reflection).LengthsFit) :
    ∃ planned, ((plan request.references request.targets settings.readSymbols).run fs).result = .ok planned ∧
      let files := ((run registration settings request () : Task ε _).run fs).files
      let o := request.outputDir
      let woven := planned.toWeave settings
      (∀ loaded ∈ woven, Landed settings.reflection (request.references.map Text.unquote) o files loaded) ∧
      report.outputs = woven.flatMap (outputsOf o) ∧
      (∀ loaded ∈ woven, loaded.symbols.isSome = true ↔
        symbolPath (o.join loaded.fileName.toList) ∈ report.outputs ∧
          symbolPath (o.join loaded.fileName.toList) ≠ o.join loaded.fileName.toList) ∧
      report.loadOrder = woven.map LoadedModule.stem ∧
      ∃ bytes text, files.read report.manifest = .ok bytes ∧ Bytes.toText? bytes = some text ∧
        Manifest.ofText? text = some ⟨woven.map LoadedModule.stem⟩ := by
  have finishes : (run registration settings request () : Task ε _).Ensures fs _ _ :=
    run_finishes registration (Settings.fault_of_validate sound) request () tree
  obtain ⟨planned, finished⟩ := finishes.done _ done report rfl
  refine ⟨planned, finished.plan, ?_⟩
  intro files o woven
  have reported := finished.reported
  have sources := sources_of_products registration settings planned.search () planned.processed
  have order : report.loadOrder = woven.map LoadedModule.stem := by
    have stems := congrArg (List.map LoadedModule.stem) sources
    rw [List.map_map] at stems
    exact reported.loadOrder.trans stems
  refine ⟨fun loaded inside => ?_, ?_, fun loaded inside => ?_, order, ?_⟩
  · obtain ⟨p, made, rfl⟩ := product_of_woven registration () inside
    exact product_landed finished made distinct (lengths planned finished.plan _ inside)
  · have paths := congrArg (List.flatMap (outputsOf o)) sources
    rw [List.flatMap_map] at paths
    exact reported.outputs.trans ((List.flatMap_congr fun p _ => paths_eq_outputs_of _ p).trans paths)
  · obtain ⟨p, made, rfl⟩ := product_of_woven registration () inside
    have stems := products_stems tree finished.looked registration settings ()
    have read := products_read finished.looked registration settings () p made
    have iff := symbol_output_iff reported.proper stems o made (symbol_name_apart tree read)
    rw [← reported.outputs] at iff
    exact iff.symm
  · have found := read_of_distinct reported distinct _ (List.mem_append_right _ (List.mem_singleton_self _))
    rw [order] at found
    exact ⟨_, _, found, Bytes.to_text_of_text _, Manifest.of_text_to_text _⟩

theorem game_files_read_back :
    let game : Module := ⟨Module.magicNumber, 1, 0, ⟨"Game", "1"⟩, [], [⟨"", "Foe", .classType, none, ["Host"], []⟩],
      [], none⟩
    let table : SymbolTable := ⟨"Game", [⟨"Foe", "foe.weft", 3⟩]⟩
    let fs := (((⟨[], []⟩ : FileSystem).write "Game.wbc" game.encode).2.write "Game.wsym" table.encode).2
    let settings : Settings := { reflection := { classAttribute := "Host" } }
    let request : Request := ⟨["\x22Core.wbc\x22"], ["Game.wbc"], "out"⟩
    let files := ((run registration settings request () : Task Failure _).run fs).files
    let record : TypeRecord := ⟨"Foe", "", "Foe", .classType, none, [], some ⟨"foe.weft", 3⟩⟩
    (∃ bytes, files.read "out/Game.wbc" = .ok bytes ∧
        Module.decode bytes = .ok (game.rewritten settings.reflection)) ∧
      (∃ bytes, files.read "out/Game.wsym" = .ok bytes ∧ SymbolTable.decode bytes = .ok table) ∧
      ∃ bytes text, files.read "out/Game.metadata.json" = .ok bytes ∧ Bytes.toText? bytes = some text ∧
        ApiMetadata.ofText? text =
          some { assemblyName := "Game", references := ["Core.wbc"], classes := [record] } := by
  intro game table fs settings request files record
  let report : Report := ⟨["out/Game.wbc", "out/Game.metadata.json", "out/Game.wsym"], ["Game"], [],
    "out/weft.assemblyloadorder.json"⟩
  let loaded : LoadedModule := ⟨game, "Game.wbc", some table, []⟩
  have sound : settings.validate = .ok settings := by decide +kernel
  have tree : fs.IsTree := FileSystem.is_tree_write (FileSystem.is_tree_write (FileSystem.empty_is_tree []) _ _) _ _
  have done : ((run registration settings request () : Task Failure _).run fs).result = .ok (.ok report, ()) := by
    decide +kernel
  have distinct : (report.outputs ++ [report.manifest]).Nodup := by decide +kernel
  have planning : ((plan request.references request.targets true).run fs).result =
      .ok ⟨⟨["Core.wbc"], []⟩, [loaded], [0]⟩ := by decide +kernel
  have lengths : ∀ planned, ((plan request.references request.targets true).run fs).result = .ok planned →
      ∀ loaded ∈ planned.toWeave settings, (loaded.module.rewritten settings.reflection).LengthsFit := by
    intro planned same
    rw [planning] at same
    cases same
    decide +kernel
  obtain ⟨planned, same, landed, _⟩ := woven_files_read_back settings request fs sound tree done distinct lengths
  rw [← Except.ok.inj (planning.symm.trans same)] at landed
  have found := landed loaded (by decide +kernel)
  have path : request.outputDir.join loaded.fileName.toList = "out/Game.wbc" := by decide +kernel
  have symbolsPath : symbolPath "out/Game.wbc" = "out/Game.wsym" := by decide +kernel
  have metadataFile : metadataPath "out/Game.wbc" = "out/Game.metadata.json" := by decide +kernel
  have recorded : loaded.module.record settings.reflection (request.references.map Text.unquote) loaded.symbols =
      { assemblyName := "Game", references := ["Core.wbc"], classes := [record] } := by decide +kernel
  have module := found.module
  have symbols := found.symbols table rfl
  have metadata := found.metadata
  rw [path] at module symbols metadata
  rw [symbolsPath] at symbols
  rw [metadataFile, recorded] at metadata
  exact ⟨module, symbols, metadata⟩

end Loom.Batch
