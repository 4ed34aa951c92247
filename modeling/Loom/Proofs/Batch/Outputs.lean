import Loom.Proofs.Batch.Products
import Loom.Proofs.OutputNames
import Loom.Proofs.SymbolFormat
import Mathlib.Data.List.Nodup
import Mathlib.Data.List.Pairwise

set_option autoImplicit false

/-! Targets differ in their stems, which keeps all of their names apart except one kind: a file may have the very name
that another one's metadata is given. -/
namespace Loom

namespace Batch

open Loom.Path StagingArea FileSystem

variable {σ : Type}

namespace Product

def stem (p : Product σ) : List Char := (splitName p.name).1

variable {p q : Product σ} {name : List Char}

theorem metadata_mem_names (p : Product σ) : extended p.name ApiMetadata.fileExtension ∈ p.names :=
  List.mem_cons_of_mem _ List.mem_cons_self

theorem extended_name (proper : p.Proper) (extension : List Char) :
    extended p.name extension = p.stem ++ '.' :: extension :=
  extended_eq (stem_ne_dot (p.name_proper proper) (proper _ p.metadata_mem_names)) extension

theorem mem_names_cases (proper : p.Proper) (member : name ∈ p.names) :
    name = p.name ∨ name = p.stem ++ '.' :: ApiMetadata.fileExtension ∨
      p.source.symbols.isSome = true ∧ name = p.stem ++ '.' :: SymbolTable.fileExtension := by
  rcases List.mem_cons.mp member with first | later
  · exact .inl first
  · rcases List.mem_cons.mp later with metadata | beside
    · exact .inr (.inl (metadata.trans (extended_name proper _)))
    · obtain ⟨table, listed, same⟩ := List.mem_map.mp beside
      exact .inr (.inr ⟨Option.isSome_iff_exists.mpr ⟨table, Option.mem_toList.mp listed⟩,
        same.symm.trans (extended_name proper _)⟩)

theorem stem_nonempty (proper : p.Proper) : p.stem ≠ [] := stem_ne_nil (p.name_proper proper).nonempty

theorem symbol_name_ne_metadata_name (proper : p.Proper) (properOther : q.Proper) :
    p.stem ++ '.' :: SymbolTable.fileExtension ≠ q.stem ++ '.' :: ApiMetadata.fileExtension := by
  intro same
  have splits := congrArg splitName same
  rw [split_symbol_name (stem_nonempty proper), split_metadata_name (stem_nonempty properOther)] at splits
  exact absurd (Option.some.inj (Prod.mk.inj splits).2) (by decide)

theorem mem_names (member : name ∈ p.names) : name = p.name ∨ IsSidecar p.name name := by
  rcases List.mem_cons.mp member with first | later
  · exact .inl first
  · rcases List.mem_cons.mp later with metadata | beside
    · exact .inr (.inr metadata)
    · obtain ⟨table, _, same⟩ := List.mem_map.mp beside
      exact .inr (.inl same.symm)

-- Products with different stems share no name, unless the file of one is named as the metadata of the other.
theorem shared_name (proper : p.Proper) (properOther : q.Proper) (stems : p.stem ≠ q.stem)
    (own : name ∈ p.names) (other : name ∈ q.names) :
    p.name = extended q.name ApiMetadata.fileExtension ∨ q.name = extended p.name ApiMetadata.fileExtension :=
  shared_output_name (p.name_proper proper) (q.name_proper properOther) stems (mem_names own) (mem_names other)

end Product

theorem sources_of_products (t : Transformer σ) (settings : Settings) (search : SearchPath) (state : σ)
    (modules : List LoadedModule) :
    (products t settings search state modules).map (·.source) =
      modules.filter fun loaded => !settings.isGlue loaded.module.name := by
  induction modules generalizing state with
  | nil => rfl
  | cons loaded rest ih =>
      by_cases glue : settings.isGlue loaded.module.name = true
      · simp [products, glue, ih]
      · simp [products, glue, ih]

section Looked

variable {fs : FileSystem} {references targets : List String} {planned : Plan}

theorem processed_perm (looked : Planned fs references targets planned) :
    planned.processed.Perm planned.modules :=
  LoadOrder.taken_perm looked.order

theorem stem_of_file (tree : fs.IsTree) {loaded : LoadedModule} (read : loaded.ReadFrom fs) :
    loaded.stem = String.ofList (splitName loaded.fileName.toList).1 := by
  obtain ⟨d, name, origin, proper⟩ := file_name_of_file tree read.isFile
  rw [LoadedModule.stem, LoadedModule.fileName, origin, Path.stem?, Path.file_name_join d proper]
  simp only [Option.map_some, String.toList_ofList]

theorem symbol_name_apart (tree : fs.IsTree) {loaded : LoadedModule} (read : loaded.ReadFrom fs)
    (has : loaded.symbols.isSome = true) :
    extended loaded.fileName.toList SymbolTable.fileExtension ≠ loaded.fileName.toList := by
  obtain ⟨table, found⟩ := Option.isSome_iff_exists.mp has
  obtain ⟨d, name, origin, proper⟩ := file_name_of_file tree read.isFile
  have fileName : loaded.fileName.toList = name := by
    rw [LoadedModule.fileName, origin, Path.file_name_join d proper]
    exact String.toList_ofList
  obtain ⟨bytes, readBytes, decoded⟩ := read.module
  obtain ⟨symbolBytes, readSymbols, symbols⟩ := read.symbols table found
  intro same
  rw [fileName] at same
  rw [origin, symbol_path_join d proper, same, ← origin, readBytes] at readSymbols
  cases readSymbols
  exact SymbolTable.not_module_of_decode symbols loaded.module decoded

theorem products_read (looked : Planned fs references targets planned) (t : Transformer σ) (settings : Settings)
    (state : σ) : ∀ p ∈ products t settings planned.search state planned.processed, p.source.ReadFrom fs := by
  intro p member
  have source : p.source ∈ (products t settings planned.search state planned.processed).map (·.source) :=
    List.mem_map_of_mem member
  rw [sources_of_products] at source
  exact looked.read _ (processed_mem (List.mem_filter.mp source).1)

theorem products_stems (tree : fs.IsTree) (looked : Planned fs references targets planned) (t : Transformer σ)
    (settings : Settings) (state : σ) :
    (products t settings planned.search state planned.processed).Pairwise fun p q => p.stem ≠ q.stem := by
  have stems : ((products t settings planned.search state planned.processed).map (·.source.stem)).Nodup := by
    have sources := congrArg (List.map LoadedModule.stem)
      (sources_of_products t settings planned.search state planned.processed)
    rw [List.map_map] at sources
    rw [show (fun p : Product σ => p.source.stem) = LoadedModule.stem ∘ Product.source from rfl, sources]
    have all := ((processed_perm looked).map LoadedModule.stem).nodup_iff.mpr looked.stems
    exact all.sublist (List.filter_sublist.map _)
  refine (List.pairwise_map.mp stems).imp_of_mem fun {p q} inside inside' apart same => apart ?_
  have read := products_read looked t settings state
  rw [stem_of_file tree (read p inside), stem_of_file tree (read q inside')]
  exact congrArg String.ofList same

end Looked

section Distinct

variable {made : List (Product σ)} (proper : ∀ p ∈ made, p.Proper)
include proper

theorem names_nodup_iff (stems : made.Pairwise fun p q => p.stem ≠ q.stem)
    (symbols : ∀ p ∈ made, p.source.symbols.isSome = true → extended p.name SymbolTable.fileExtension ≠ p.name) :
    (made.flatMap Product.names).Nodup ↔
      ∀ p ∈ made, ∀ q ∈ made, p.name ≠ extended q.name ApiMetadata.fileExtension := by
  rw [List.nodup_flatMap]
  constructor
  · intro facts p inside q inside' same
    obtain ⟨within, between⟩ := facts
    have shared : p.name ∈ q.names := same ▸ q.metadata_mem_names
    by_cases equal : p = q
    · rw [equal] at same
      exact (List.nodup_cons.mp (within q inside')).1 (same ▸ List.mem_cons_self)
    · have symmetric : Std.Symm (Function.onFun List.Disjoint (Product.names (σ := σ))) :=
        ⟨fun _ _ apart => apart.symm⟩
      exact between.forall inside inside' equal List.mem_cons_self shared
  · intro apart
    refine ⟨fun p inside => ?_, stems.imp_of_mem fun {p q} inside inside' stems => ?_⟩
    · have metadata := apart p inside p inside
      unfold Product.names namesOf
      cases loaded : p.source.symbols with
      | none => simpa using metadata
      | some table =>
          have has : p.source.symbols.isSome = true := by rw [loaded, Option.isSome_some]
          have other := Product.symbol_name_ne_metadata_name (proper p inside) (proper p inside)
          rw [← Product.extended_name (proper p inside), ← Product.extended_name (proper p inside)] at other
          simpa using ⟨⟨metadata, (symbols p inside has).symm⟩, other.symm⟩
    · intro name own other
      rcases Product.shared_name (proper p inside) (proper q inside') stems own other with same | same
      · exact apart p inside q inside' same
      · exact apart q inside' p inside same

end Distinct

section Paths

variable {made : List (Product σ)} (proper : ∀ p ∈ made, p.Proper)
include proper

theorem names_proper : ∀ name ∈ made.flatMap Product.names, IsName name := by
  intro name member
  obtain ⟨p, inside, own⟩ := List.mem_flatMap.mp member
  exact proper p inside name own

theorem paths_of_names (o : Path) : made.flatMap (·.paths o) = (made.flatMap Product.names).map o.join := by
  rw [List.map_flatMap]
  exact List.flatMap_congr fun p inside => Product.paths_eq (proper p inside) o

theorem paths_nodup_iff (o : Path) :
    (made.flatMap (·.paths o)).Nodup ↔ (made.flatMap Product.names).Nodup := by
  rw [paths_of_names proper]
  have named := names_proper proper
  exact ⟨List.Nodup.of_map o.join, List.Nodup.map_on fun name inside other inside' same =>
    join_injective o (named name inside) (named other inside') same⟩

theorem collision_iff (o : Path) :
    (∀ p ∈ made, ∀ q ∈ made, o.join p.name ≠ metadataPath (o.join q.name)) ↔
      ∀ p ∈ made, ∀ q ∈ made, p.name ≠ extended q.name ApiMetadata.fileExtension := by
  refine forall₂_congr fun p inside => forall₂_congr fun q inside' => not_congr ?_
  rw [metadata_path_join o (q.name_proper (proper q inside'))]
  exact ⟨join_injective o (p.name_proper (proper p inside)) (proper q inside' _ q.metadata_mem_names),
    congrArg o.join⟩

end Paths

def Product.writes (o : Path) (layout : Json.Layout) (p : Product σ) : List (Path × Bytes) :=
  (o.join p.name, p.module.encode) ::
    (p.source.symbols.toList.map (fun table => (symbolPath (o.join p.name), table.encode)) ++
      [(metadataPath (o.join p.name), Bytes.ofText (p.woven.draft.metadata.toText layout))])

theorem writes_eq {p : Product σ} (proper : p.Proper) (o : Path) (layout : Json.Layout) :
    p.writes o layout = (p.files layout).map fun file => (o.join file.1, file.2) := by
  have own := p.name_proper proper
  simp only [Product.writes, Product.files, filesOf, symbol_path_join o own, metadata_path_join o own, List.map_cons,
    List.map_append, List.map_map, List.map_nil]
  rfl

theorem lookup_join {files : List (List Char × Bytes)} (named : ∀ file ∈ files, IsName file.1) (o path : Path)
    {content : Bytes} (found : (files.map fun file => (o.join file.1, file.2)).lookup path = some content) :
    ∃ name, path = o.join name ∧ files.lookup name = some content := by
  induction files with
  | nil => cases found
  | cons file rest ih =>
      obtain ⟨proper, others⟩ := List.forall_mem_cons.mp named
      rw [List.map_cons, List.lookup_cons] at found
      by_cases here : path = o.join file.1
      · rw [here, beq_self_eq_true] at found
        exact ⟨file.1, here, by rw [List.lookup_cons, beq_self_eq_true]; exact found⟩
      · rw [beq_false_of_ne here] at found
        obtain ⟨name, same, later⟩ := ih others found
        have apart : name ≠ file.1 := fun equal => here (equal ▸ same)
        exact ⟨name, same, by rw [List.lookup_cons, beq_false_of_ne apart]; exact later⟩

theorem last_written_of_distinct {files : List (List Char × Bytes)} (distinct : (files.map Prod.fst).Nodup)
    {file : List Char × Bytes} (member : file ∈ files) : lastWritten files file.1 = some file.2 := by
  have reversed : (files.reverse.map Prod.fst).Nodup := by rwa [List.map_reverse, List.nodup_reverse]
  obtain ⟨before, after, whole⟩ := List.append_of_mem (List.mem_reverse.mpr member)
  refine List.lookup_eq_some_iff.mpr ⟨before, after, whole, fun other inside => ?_⟩
  rw [whole, List.map_append, List.map_cons] at reversed
  have apart := (List.nodup_append.mp reversed).2.2 _ (List.mem_map_of_mem inside) _ List.mem_cons_self
  exact bne_iff_ne.mpr (Ne.symm apart)

theorem written_names_perm (settings : Settings) (made : List (Product σ)) :
    ((written settings made).map Prod.fst).Perm (made.flatMap Product.names ++ [settings.manifestName.toList]) := by
  rw [written, List.map_append, List.map_flatMap]
  exact (List.Perm.flatMap_left made fun p _ => names_of_perm _ _ _ _).append_right _

section Reported

variable {settings : Settings} {request : Request} {made : List (Product σ)} {report : Report} {after : FileSystem}
  (reported : Reported settings request made report after)
include reported

theorem writes_reported :
    made.flatMap (·.writes request.outputDir (layoutOf settings.prettyMetadata)) ++
        [(report.manifest, Bytes.ofText (Manifest.toText ⟨report.loadOrder⟩))] =
      (written settings made).map fun file => (request.outputDir.join file.1, file.2) := by
  rw [written, List.map_append, List.map_flatMap, ← reported.loadOrder, List.map_singleton, ← reported.manifest]
  exact congrArg (· ++ _) (List.flatMap_congr fun p inside => writes_eq (reported.proper p inside) request.outputDir _)

theorem written_names_nodup (distinct : (report.outputs ++ [report.manifest]).Nodup) :
    ((written settings made).map Prod.fst).Nodup := by
  rw [reported.outputs, paths_of_names reported.proper, reported.manifest, ← List.map_singleton,
    ← List.map_append] at distinct
  exact (written_names_perm settings made).nodup_iff.mpr (List.Nodup.of_map _ distinct)

theorem read_of_distinct (distinct : (report.outputs ++ [report.manifest]).Nodup) :
    ∀ entry ∈ made.flatMap (·.writes request.outputDir (layoutOf settings.prettyMetadata)) ++
      [(report.manifest, Bytes.ofText (Manifest.toText ⟨report.loadOrder⟩))], after.read entry.1 = .ok entry.2 := by
  intro entry member
  rw [writes_reported reported] at member
  obtain ⟨file, inside, rfl⟩ := List.mem_map.mp member
  exact reported.content file.1 file.2 (last_written_of_distinct (written_names_nodup reported distinct) inside)

end Reported

/-- They are distinct exactly if no file has the name of another one's metadata, and none that of the manifest. Each
path holds what was written to it last. -/
theorem outputs_distinct_iff {ε : Type} (t : Transformer σ) (settings : Settings) (request : Request) (state : σ)
    (fs : FileSystem) (sound : settings.validate = .ok settings) (tree : fs.IsTree) {report : Report} {last : σ}
    (done : ((run t settings request state : Task ε _).run fs).result = .ok (.ok report, last)) :
    ∃ planned, ((plan request.references request.targets settings.readSymbols).run fs).result = .ok planned ∧
      let files := ((run t settings request state : Task ε _).run fs).files
      let o := request.outputDir
      let made := products t settings planned.search state planned.processed
      let writes := made.flatMap (·.writes o (layoutOf settings.prettyMetadata)) ++
        [(report.manifest, Bytes.ofText (Manifest.toText ⟨report.loadOrder⟩))]
      report.outputs = made.flatMap (·.paths o) ∧
      report.manifest = o.join settings.manifestName.toList ∧
      ((report.outputs ++ [report.manifest]).Nodup ↔
        (∀ p ∈ made, ∀ q ∈ made, o.join p.name ≠ metadataPath (o.join q.name)) ∧
          report.manifest ∉ report.outputs) ∧
      (∀ path content, writes.reverse.lookup path = some content → files.read path = .ok content) ∧
      ((report.outputs ++ [report.manifest]).Nodup → ∀ entry ∈ writes, files.read entry.1 = .ok entry.2) := by
  have faultless := Settings.fault_of_validate sound
  obtain ⟨_, properManifest⟩ := Settings.names_of_sound faultless
  have finishes : (run t settings request state : Task ε _).Ensures fs _ _ :=
    run_finishes t faultless request state tree
  obtain ⟨planned, made, looked, _, reported⟩ := finishes.done _ done report rfl
  refine ⟨planned, made, ?_⟩
  intro files o made writes
  have proper : ∀ p ∈ made, p.Proper := reported.proper
  have stems := products_stems tree looked t settings state
  have symbols : ∀ p ∈ made, p.source.symbols.isSome = true →
      extended p.name SymbolTable.fileExtension ≠ p.name :=
    fun p inside => symbol_name_apart tree (products_read looked t settings state p inside)
  have namesPerm := written_names_perm settings made
  have named : ∀ file ∈ written settings made, IsName file.1 := by
    intro file member
    rcases List.mem_append.mp (namesPerm.mem_iff.mp (List.mem_map_of_mem member)) with own | manifest
    · exact names_proper proper _ own
    · rw [List.mem_singleton.mp manifest]
      exact properManifest
  refine ⟨reported.outputs, reported.manifest, ?_, ?_, ?_⟩
  · rw [collision_iff proper, ← names_nodup_iff proper stems symbols, ← paths_nodup_iff proper o, ← reported.outputs,
      ← List.concat_eq_append, List.nodup_concat, and_comm]
  · intro path content found
    rw [show writes = _ from writes_reported reported, ← List.map_reverse] at found
    obtain ⟨name, same, latest⟩ := lookup_join (fun file member => named file (List.mem_reverse.mp member)) o path found
    rw [same]
    exact reported.content name content latest
  · exact read_of_distinct reported

-- One module is in a file named as the metadata of the other.
theorem metadata_lost_to_module :
    let other : Module := ⟨Module.magicNumber, 1, 0, ⟨"Other", "1"⟩, [], [], [], none⟩
    let fs := ((((⟨[], []⟩ : FileSystem).write "Game.wbc"
      (⟨Module.magicNumber, 1, 0, ⟨"Game", "1"⟩, [], [], [], none⟩ : Module).encode).2).write "Game.metadata.json"
      other.encode).2
    let idle : Transformer Unit := ⟨fun _ _ state draft => ⟨state, draft, .ok ()⟩⟩
    let request : Request := ⟨[], ["Game.wbc", "Game.metadata.json"], "out"⟩
    let report : Report := ⟨["out/Game.wbc", "out/Game.metadata.json", "out/Game.metadata.json",
      "out/Game.metadata.metadata.json"], ["Game", "Game.metadata"], [], "out/weft.assemblyloadorder.json"⟩
    ((run idle {} request () : Task Failure _).run fs).result = .ok (.ok report, ()) ∧
      ¬ (report.outputs ++ [report.manifest]).Nodup ∧
      ((run idle {} request () : Task Failure _).run fs).files.read "out/Game.metadata.json" =
        .ok (other.setFlag Module.wovenFlag).encode ∧
      ∃ planned, ((plan [] request.targets true).run fs).result = .ok planned ∧
        ∃ p ∈ products idle {} planned.search () planned.processed,
          ∃ q ∈ products idle {} planned.search () planned.processed,
            request.outputDir.join p.name = metadataPath (request.outputDir.join q.name) := by
  intro other fs idle request report
  have sound : ({} : Settings).validate = .ok {} := by decide +kernel
  have tree : fs.IsTree := is_tree_write (is_tree_write (empty_is_tree []) _ _) _ _
  have done : ((run idle {} request () : Task Failure _).run fs).result = .ok (.ok report, ()) := by decide +kernel
  have repeated : ¬ (report.outputs ++ [report.manifest]).Nodup := by decide +kernel
  have apart : report.manifest ∉ report.outputs := by decide +kernel
  obtain ⟨planned, made, _, _, distinct, _, _⟩ := outputs_distinct_iff idle {} request () fs sound tree done
  refine ⟨done, repeated, by decide +kernel, planned, made, ?_⟩
  by_contra none
  refine repeated (distinct.mpr ⟨fun p inside q inside' same => none ?_, apart⟩)
  exact ⟨p, inside, q, inside', same⟩

end Batch

end Loom
