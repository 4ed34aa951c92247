import Loom.Proofs.Batch.Outputs
import Loom.Proofs.Deeds

set_option autoImplicit false

/-! Where a batch may do anything to files, however it ends. -/
namespace Loom

open Loom.Task StagingArea FileSystem

namespace SearchPath

theorem still_add {ε : Type} (search : SearchPath) (raw : String) : (search.add raw : Task ε _).Still := by
  unfold add
  dsimp only
  split
  · exact still_pure _
  · split
    · exact still_pure _
    · refine still_then (still_is_dir _) fun found => ?_
      cases found with
      | true => exact still_then (still_tell _) fun _ => still_pure _
      | false => exact still_pure _

theorem still_add_all (search : SearchPath) (raws : List String) : (search.addAll raws).Still := by
  induction raws generalizing search with
  | nil => exact still_pure search
  | cons raw rest ih =>
      exact still_then (still_add search raw) fun answer => still_then (still_of_except _) fun _ => ih answer.2

theorem still_find_in {ε : Type} (moduleName : String) (dirs : List Path) :
    (findIn moduleName dirs : Task ε _).Still := by
  induction dirs with
  | nil => exact still_pure none
  | cons dir rest ih =>
      unfold findIn
      refine still_then (still_is_file _) fun found => ?_
      cases found with
      | true => exact still_pure _
      | false => exact ih

end SearchPath

section Loading

variable (search : SearchPath) (readSymbols : Bool)

theorem still_read_module (path : Path) : (readModule path).Still :=
  still_then (still_read_file path _) fun _ => still_or_fail _ _

theorem still_read_symbol_table (path : Path) : (readSymbolTable path).Still :=
  still_then (still_read_file path _) fun _ => still_or_fail _ _

theorem still_load_symbols (modulePath : Path) (moduleName : String) :
    (loadSymbols modulePath moduleName).Still := by
  unfold loadSymbols
  refine still_then (still_is_file _) fun found => ?_
  cases found with
  | false => exact still_pure none
  | true =>
      refine still_then (still_attempt (still_read_symbol_table _)) fun _ => ?_
      refine still_then (still_or_fail _ _) fun table => ?_
      split
      · exact still_pure _
      · exact still_fail _

theorem still_resolve_reference {ε : Type} (moduleName : String) (reference : Identity) :
    (resolveReference search moduleName reference : Task ε _).Still := by
  refine still_then (SearchPath.still_find_in reference.name search.dirs) fun found => ?_
  cases found with
  | some path => exact still_pure _
  | none => exact still_then (still_tell _) fun _ => still_pure _

theorem still_load_module (path : Path) : (loadModule search readSymbols path).Still := by
  unfold loadModule
  refine still_then (still_is_file path) fun found => ?_
  cases found with
  | false => exact still_fail _
  | true =>
      refine still_then (still_attempt (still_read_module path)) fun _ => ?_
      refine still_then (still_or_fail _ _) fun module => ?_
      have resolved : ∀ symbols : Option SymbolTable,
          (Task.each (resolveReference search module.name) module.references >>= fun references =>
            (pure ⟨module, path, symbols, references⟩ : Task Failure LoadedModule)).Still := by
        intro symbols
        refine still_then ?_ fun references => still_pure _
        exact still_each (still_resolve_reference search module.name) module.references
      cases readSymbols with
      | true => exact still_then (still_load_symbols path module.name) resolved
      | false => exact resolved none

theorem still_first_missing {ε : Type} (paths : List Path) : (firstMissing paths : Task ε _).Still := by
  induction paths with
  | nil => exact still_pure none
  | cons path rest ih =>
      unfold firstMissing
      refine still_then (still_is_file path) fun found => ?_
      cases found with
      | true => exact ih
      | false => exact still_pure _

theorem still_load_modules (targets : List String) : (loadModules search readSymbols targets).Still := by
  refine still_then (still_first_missing _) fun missing => ?_
  cases missing with
  | some path => exact still_fail _
  | none =>
      refine still_each (fun path => ?_) _
      exact still_then (still_load_module search readSymbols path) fun _ => still_then (still_tell _) fun _ => still_pure _

end Loading

theorem StagingArea.still_report_staged {ε : Type} (paths : List Path) : (reportStaged paths : Task ε Unit).Still := by
  induction paths with
  | nil => exact still_pure ()
  | cons path rest ih => exact still_then (still_tell _) fun _ => ih

namespace Batch

variable {σ : Type}

theorem still_order_nodes {ε : Type} (nodes : List OrderNode) : (orderNodes nodes : Task ε _).Still := by
  unfold orderNodes
  dsimp only
  split
  · exact still_then (still_tell _) fun _ => still_pure _
  · exact still_pure _

theorem still_plan (references targets : List String) (readSymbols : Bool) :
    (plan references targets readSymbols).Still := by
  refine still_then (SearchPath.still_add_all {} references) fun search => ?_
  refine still_then (still_load_modules search readSymbols targets) fun modules => ?_
  split
  · exact still_fail _
  · exact still_then (still_order_nodes _) fun _ => still_pure _

def namesFor (target : Path) : List (List Char) :=
  target.fileName?.toList.flatMap fun name =>
    [name, (Path.splitName name).1 ++ '.' :: SymbolTable.fileExtension,
      (Path.splitName name).1 ++ '.' :: ApiMetadata.fileExtension]

def namesOfBatch (settings : Settings) (request : Request) : List (List Char) :=
  settings.manifestName.toList ::
    request.targets.flatMap fun target => namesFor (Path.ofString (Text.unquote target))

structure Confined (o : Path) (staging : Location) (names : List (List Char)) (fs : FileSystem) (deed : Deed) :
    Prop where
  touches : ∀ l, deed.Touches l →
    (l ∈ fs.way o ∧ deed.before.get? l = none ∧ deed.after.get? l = some .directory) ∨ staging <+: l ∨
      ∃ name ∈ names, l = fs.place o ++ [name]
  deletes : ∀ l, deed.Deletes l → staging <+: l

section Deeds

variable {o : Path} {staging : Location} {names : List (List Char)} {fs now : FileSystem}

theorem confined_write (tree : now.IsTree) {p : Path} {content : Bytes}
    (inside : (now.write p content).1 = .ok () →
      staging <+: now.place p ∨ ∃ name ∈ names, now.place p = fs.place o ++ [name]) :
    Confined o staging names fs (.write now p content) := by
  refine ⟨fun l touches => .inr ?_, fun l deletes => absurd deletes (Deed.write_deletes_nothing tree p content l)⟩
  obtain ⟨same, done⟩ := Deed.write_touches tree touches
  exact same ▸ inside done

theorem confined_copy (tree : now.IsTree) {source target : Path} {name : List Char} (member : name ∈ names)
    (place : now.place target = fs.place o ++ [name]) : Confined o staging names fs (.copy now source target) := by
  refine ⟨fun l touches => .inr (.inr ⟨name, member, ?_⟩), fun l deletes => ?_⟩
  · exact (Deed.copy_touches tree touches).trans place
  · exact absurd deletes (Deed.copy_deletes_nothing tree source target l)

theorem confined_make_dirs (tree : now.IsTree) {p : Path}
    (onWay : ∀ l ∈ now.way p, l ∈ fs.way o ∨ staging <+: l) : Confined o staging names fs (.makeDirs now p) := by
  refine ⟨fun l touches => ?_, fun l deletes => absurd deletes (Deed.make_dirs_deletes_nothing tree p l)⟩
  obtain ⟨member, missing, made⟩ := Deed.make_dirs_touches tree touches
  exact (onWay l member).imp (fun on => ⟨on, missing, made⟩) Or.inl

theorem confined_remove_tree {p : Path} (place : now.place p = staging) :
    Confined o staging names fs (.removeTree now p) := by
  have within : ∀ l, (Deed.removeTree now p).Touches l → staging <+: l :=
    fun l touches => place ▸ Deed.remove_tree_touches touches
  refine ⟨fun l touches => .inr (.inl (within l touches)), fun l deletes => within l (.inr fun same => ?_)⟩
  exact deletes.1 (same.symm.trans deletes.2)

theorem copy_into_confined (here : now.here = fs.here) (tree : now.IsTree) {d : Path} (paths : List Path)
    (inside : ∀ path ∈ paths, ∃ name ∈ names, Path.IsName name ∧ path = d.join name) :
    (copyInto o paths).Within (Confined o staging names fs) now := by
  induction paths generalizing now with
  | nil => exact within_pure _
  | cons path rest ih =>
      obtain ⟨⟨name, listed, own, rfl⟩, later⟩ := List.forall_mem_cons.mp inside
      rw [copyInto, Path.file_name_join d own]
      refine within_then tree ((within_copy _ _ _).mpr ⟨?_, within_or_fail _ _⟩) fun _ now' tree same => ?_
      · refine confined_copy tree listed ?_
        rw [place_join now o own, place_congr here]
      · exact within_then tree (ih (same.trans here) tree later) fun _ _ _ _ => within_pure _

end Deeds

section Steps

variable {o : Path} {staging : String} {names : List (List Char)} {fs now : FileSystem}
  (proper : Path.IsName staging.toList) (here : now.here = fs.here)

include proper here

theorem staged_file_confined (tree : now.IsTree) {name : List Char} (shaped : name = ['.', '.'] ∨ Path.IsName name)
    (content : Bytes) :
    Confined o (fs.place o ++ [staging.toList]) names fs
      (.write now ((o.join staging.toList).join name) content) := by
  refine confined_write tree fun done => .inl ?_
  rcases shaped with dots | own
  · obtain ⟨e, failed⟩ := write_parent_fails tree (o.join staging.toList) content
    rw [dots, failed] at done
    cases done
  · rw [place_join now _ own, place_join now o proper, place_congr here]
    exact List.prefix_append _ _

theorem removal_confined :
    Confined o (fs.place o ++ [staging.toList]) names fs (.removeTree now (o.join staging.toList)) := by
  refine confined_remove_tree ?_
  rw [place_join now o proper, place_congr here]

theorem create_confined (tree : now.IsTree) (pretty : Bool) :
    (create o staging pretty).Within (Confined o (fs.place o ++ [staging.toList]) names fs) now := by
  have opening : ∀ mid : FileSystem, mid.IsTree → mid.here = now.here →
      (.makeDirs (o.join staging.toList) (orIo (o.join staging.toList)) >>= fun _ =>
        (pure ⟨o.join staging.toList, layoutOf pretty, []⟩ : Task Failure StagingArea)).Within
        (Confined o (fs.place o ++ [staging.toList]) names fs) mid := by
    intro mid still same
    have start : mid.here = fs.here := same.trans here
    refine within_then still ((within_make_dirs _ _).mpr ⟨?_, within_or_fail _ _⟩) fun _ _ _ _ => within_pure _
    refine confined_make_dirs still fun l onWay => ?_
    rw [way_join mid o proper, way_congr start, place_congr start] at onWay
    refine (List.mem_append.mp onWay).imp_right fun last => ?_
    rw [List.mem_singleton.mp last]
  unfold create
  refine within_then tree (within_kind_of _) fun kind mid still same => ?_
  split
  · refine within_then still (within_tell _) fun _ mid' still' same' => ?_
    have start : mid'.here = fs.here := (same'.trans same).trans here
    refine within_then still' ((within_remove_tree _ _).mpr ⟨removal_confined proper start, within_or_fail _ _⟩) ?_
    exact fun _ last still'' same'' => opening last still'' ((same''.trans same').trans same)
  · exact opening mid still same

theorem write_symbols_confined (tree : now.IsTree) {name : List Char} (own : Path.IsName name)
    (symbols : Option SymbolTable) :
    (writeSymbols ((o.join staging.toList).join name) symbols).Within
      (Confined o (fs.place o ++ [staging.toList]) names fs) now := by
  cases symbols with
  | none => exact within_pure _
  | some table =>
      unfold writeSymbols
      rw [symbol_path_join _ own]
      refine within_then tree ?_ fun _ _ _ _ => within_pure _
      exact (within_write_file _ _ _).mpr
        (staged_file_confined proper here tree (Path.extended_cases own (by decide) (by decide)) _)

theorem write_confined (tree : now.IsTree) {area : StagingArea} (dir : area.dir = o.join staging.toList)
    {fileName : String} (own : Path.IsName fileName.toList) (module : Module) (symbols : Option SymbolTable)
    (metadata : ApiMetadata) :
    (area.write fileName module symbols metadata).Within
      (Confined o (fs.place o ++ [staging.toList]) names fs) now := by
  unfold StagingArea.write
  rw [dir]
  refine within_then tree (within_or_fail _ _) fun _ now' tree same => ?_
  replace here := same.trans here
  refine within_then tree ((within_write_file _ _ _).mpr ?_) fun _ now' tree same => ?_
  · exact staged_file_confined proper here tree (.inr own) _
  replace here := same.trans here
  refine within_then tree (write_symbols_confined proper here tree own symbols) fun _ now' tree same => ?_
  replace here := same.trans here
  refine within_then tree ((within_write_file _ _ _).mpr ?_) fun _ now' tree same => ?_
  · rw [metadata_path_join _ own]
    exact staged_file_confined proper here tree (Path.extended_cases own (by decide) (by decide)) _
  · exact within_then tree ((still_report_staged _).within _ _) fun _ _ _ _ => within_pure _

theorem weave_all_confined {ε : Type} (tree : now.IsTree) (t : Transformer σ) (settings : Settings)
    (search : SearchPath) (modules : List LoadedModule) (progress : Progress σ)
    (dir : progress.area.dir = o.join staging.toList)
    (named : ∀ loaded ∈ modules, Path.IsName loaded.fileName.toList) :
    (weaveAll t settings search progress modules : Task ε _).Within
      (Confined o (fs.place o ++ [staging.toList]) names fs) now := by
  induction modules generalizing progress now with
  | nil => exact within_pure _
  | cons loaded rest ih =>
      obtain ⟨own, later⟩ := List.forall_mem_cons.mp named
      rw [weaveAll]
      split
      · exact within_then tree (within_tell _) fun _ now' tree same => ih (same.trans here) tree _ dir later
      · refine within_then tree (within_tell _) fun _ now' tree same => ?_
        replace here := same.trans here
        dsimp only
        split
        · exact within_pure _
        · refine (within_bind _ _).mpr ⟨(within_attempt _).mpr (write_confined proper here tree dir own _ _ _), ?_⟩
          rw [ensures_attempt]
          apply ensures_mono (write_stages tree progress.area own _ _ _)
          · intro answer after facts
            obtain ⟨files, wrote, _, _, same⟩ := facts
            rw [same]
            have start : after.here = fs.here := wrote.staged.keeps.here.trans here
            refine within_then wrote.staged.tree (within_tell _) fun _ _ tree same => ?_
            exact ih (same.trans start) tree _ dir later
          · exact fun _ _ _ => within_pure _

theorem commit_confined (tree : now.IsTree) {settings : Settings} {request : Request} {progress : Progress σ}
    (output : request.outputDir = o) (dir : progress.area.dir = o.join staging.toList)
    (inside : ∀ path ∈ progress.area.staged, ∃ name ∈ names, Path.IsName name ∧ path = progress.area.dir.join name)
    (manifest : settings.manifestName.toList ∈ names) (own : Path.IsName settings.manifestName.toList) :
    (commit settings request progress).Within (Confined o (fs.place o ++ [staging.toList]) names fs) now := by
  have promoted : (progress.area.promote o).Within (Confined o (fs.place o ++ [staging.toList]) names fs) now := by
    unfold promote
    refine within_then tree (copy_into_confined here tree _ inside) fun _ mid still same => ?_
    rw [dir]
    refine within_then still ((within_remove_tree _ _).mpr ⟨removal_confined proper (same.trans here), ?_⟩) ?_
    · exact within_or_fail _ _
    · exact fun _ _ last _ => within_then last (within_tell _) fun _ _ _ _ => within_pure _
  unfold commit writeManifest
  rw [output]
  refine within_then tree promoted fun _ mid still same => ?_
  refine within_then still ?_ fun _ _ last _ => within_then last (within_tell _) fun _ _ _ _ => within_pure _
  refine within_then still ((within_write_file _ _ _).mpr ?_) fun _ _ _ _ => within_pure _
  refine confined_write still fun _ => .inr ⟨_, manifest, ?_⟩
  rw [place_join mid o own, place_congr (same.trans here)]

end Steps

theorem names_promised {fs : FileSystem} (tree : fs.IsTree) {p : Product σ} (proper : p.Proper)
    (read : p.source.ReadFrom fs) {name : List Char} (member : name ∈ p.names) : name ∈ namesFor p.source.origin := by
  obtain ⟨d, own, origin, properOwn⟩ := file_name_of_file tree read.isFile
  have found : p.source.origin.fileName? = some own := by rw [origin, Path.file_name_join d properOwn]
  have same : p.name = own := by
    rw [Product.name, LoadedModule.fileName, found]
    exact String.toList_ofList
  rw [namesFor, found, Option.toList_some, List.flatMap_singleton, ← same]
  rcases Product.mem_names_cases proper member with first | metadata | ⟨_, beside⟩
  · exact first ▸ List.mem_cons_self
  · exact metadata ▸ List.mem_cons_of_mem _ (List.mem_cons_of_mem _ List.mem_cons_self)
  · exact beside ▸ List.mem_cons_of_mem _ List.mem_cons_self

theorem staged_named {t : Transformer σ} {settings : Settings} {request : Request} {state : σ} {planned : Plan}
    {fs prepared woven : FileSystem} {d : Path} {layout : Json.Layout} {progress : Progress σ} (tree : fs.IsTree)
    (looked : Planned fs request.references request.targets planned)
    (completed : Completed ⟨d, layout, []⟩ [] (products t settings planned.search state planned.processed) prepared
      progress woven) :
    ∀ path ∈ progress.area.staged,
      ∃ name ∈ namesOfBatch settings request, Path.IsName name ∧ path = progress.area.dir.join name := by
  intro path member
  rw [completed.area] at member ⊢
  obtain ⟨p, inside, own⟩ := List.mem_flatMap.mp member
  have proper := completed.proper p inside
  rw [Product.paths_eq proper] at own
  obtain ⟨name, listed, same⟩ := List.mem_map.mp own
  have read := products_read looked t settings state p inside
  have source : p.source ∈ (products t settings planned.search state planned.processed).map (·.source) :=
    List.mem_map_of_mem inside
  rw [sources_of_products] at source
  have origin : p.source.origin ∈ planned.modules.map (·.origin) :=
    List.mem_map_of_mem (processed_mem (List.mem_filter.mp source).1)
  rw [looked.origins] at origin
  obtain ⟨target, given, found⟩ := List.mem_map.mp origin
  refine ⟨name, List.mem_cons_of_mem _ (List.mem_flatMap.mpr ⟨target, given, ?_⟩), proper name listed, same.symm⟩
  rw [found]
  exact names_promised tree proper read listed

theorem prepare_confined {settings : Settings} {request : Request} {fs : FileSystem} {names : List (List Char)}
    (proper : Path.IsName settings.stagingDir.toList) (tree : fs.IsTree) :
    (prepare settings request).Within
      (Confined request.outputDir (fs.place request.outputDir ++ [settings.stagingDir.toList]) names fs) fs := by
  have looks : (plan request.references request.targets settings.readSymbols).Looks fs _ _ := looks_plan _ _ _
  unfold prepare
  refine (within_bind _ _).mpr ⟨(still_plan _ _ _).within _ _, fun planned _ => ?_, fun _ _ => trivial⟩
  rw [looks_files looks]
  refine within_then tree (within_tell _) fun _ now still same => ?_
  refine within_then still ((within_make_dirs _ _).mpr ⟨?_, within_or_fail _ _⟩) fun _ mid still' same' => ?_
  · refine confined_make_dirs still fun l onWay => .inl ?_
    rwa [way_congr same] at onWay
  · exact within_then still' (create_confined proper (same'.trans same) still' _) fun _ _ _ _ => within_pure _

theorem run_within {ε : Type} (t : Transformer σ) {settings : Settings} (sound : settings.fault = none)
    (request : Request) (state : σ) {fs : FileSystem} (tree : fs.IsTree) :
    (run t settings request state : Task ε _).Within
      (Confined request.outputDir (fs.place request.outputDir ++ [settings.stagingDir.toList])
        (namesOfBatch settings request) fs) fs := by
  obtain ⟨proper, properManifest⟩ := Settings.names_of_sound sound
  unfold run
  refine (within_bind _ _).mpr ⟨(within_attempt _).mpr (prepare_confined proper tree), ?_⟩
  rw [ensures_attempt]
  apply ensures_mono (prepare_ensures tree sound request)
  · intro answer prepared facts
    obtain ⟨planned, area⟩ := answer
    have which : area = _ := facts.area
    have named : ∀ loaded ∈ planned.processed, Path.IsName loaded.fileName.toList :=
      fun loaded member => facts.named loaded (processed_mem member)
    have here : prepared.here = fs.here := facts.opened.grows.here
    have dir : area.dir = request.outputDir.join settings.stagingDir.toList := by rw [which]
    refine (within_bind _ _).mpr ⟨?_, ?_⟩
    · exact weave_all_confined proper here facts.opened.tree t settings _ _ ⟨state, area, [], []⟩ dir named
    apply ensures_mono (ensures_and (weave_all_underway t state facts)
      (weave_all_completes (ε := ε) t settings planned.search planned.processed ⟨state, area, [], []⟩
        facts.opened.tree named))
    · intro ended woven facts'
      obtain ⟨progress, stopped⟩ := ended
      obtain ⟨underway, completes⟩ := facts'
      dsimp only at underway completes ⊢
      refine within_then underway.tree (within_tell _) fun _ now still same => ?_
      have start : now.here = fs.here := same.trans underway.here
      cases stopped with
      | some failure =>
          refine within_then still ?_ fun _ _ _ _ => within_pure _
          rw [abandon, underway.dir]
          refine (within_remove_tree _ _).mpr ⟨removal_confined proper start, ?_⟩
          cases (now.removeTree (request.outputDir.join settings.stagingDir.toList)).1 with
          | ok _ => exact within_tell _
          | error e => exact within_tell _
      | none =>
          have completed := completes rfl
          refine within_then still ((within_attempt _).mpr ?_) fun _ _ _ _ => within_pure _
          refine commit_confined proper start still rfl underway.dir ?_ List.mem_cons_self properManifest
          rw [which] at completed
          exact staged_named tree facts.planned completed
    · exact fun _ _ impossible => impossible.1.elim
  · exact fun _ _ _ => within_pure _

/-- Whatever becomes of a batch, each of its actions touches only what belongs to it, and takes away only what is in
its staging directory. -/
theorem run_confined {ε : Type} (t : Transformer σ) (settings : Settings) (request : Request) (state : σ)
    (fs : FileSystem) (sound : settings.validate = .ok settings) (tree : fs.IsTree) :
    let o := request.outputDir
    let staging := fs.place (o.join settings.stagingDir.toList)
    let batch : Task ε _ := run t settings request state
    staging = fs.place o ++ [settings.stagingDir.toList] ∧
      (∀ deed ∈ batch.deeds fs, Confined o staging (namesOfBatch settings request) fs deed) ∧
      ∀ l, ((batch.run fs).files.get? l ≠ fs.get? l →
          l ∈ fs.way o ∨ staging <+: l ∨ ∃ name ∈ namesOfBatch settings request, l = fs.place o ++ [name]) ∧
        (fs.get? l ≠ none → (batch.run fs).files.get? l = none → staging <+: l) := by
  intro o staging batch
  have faultless := Settings.fault_of_validate sound
  have place : staging = fs.place o ++ [settings.stagingDir.toList] :=
    place_join fs o (Settings.names_of_sound faultless).1
  have each : ∀ deed ∈ batch.deeds fs, Confined o staging (namesOfBatch settings request) fs deed := by
    rw [place]
    exact run_within t faultless request state tree
  refine ⟨place, each, fun l => ⟨fun changed => ?_, fun stood gone => ?_⟩⟩
  · have touched : batch.Touches fs l := by
      by_contra untouched
      exact changed (get_of_untouched batch untouched)
    obtain ⟨deed, member, touches⟩ := touched
    exact ((each deed member).touches l touches).imp_left fun made => made.1
  · obtain ⟨deed, member, deletes⟩ := deleted_by_deed batch stood gone
    exact (each deed member).deletes l deletes

-- What an earlier batch left in the staging directory is taken away. Notes beside the outputs stay.
theorem notes_kept_beside_game :
    let fs := ((((⟨[], []⟩ : FileSystem).write "Game.wbc"
      (⟨Module.magicNumber, 1, 0, ⟨"Game", "1"⟩, [], [], [], none⟩ : Module).encode).2.makeDirs
        "out/.weft-staging/Old").2.write "out/Notes.txt" [104, 105]).2
    let idle : Transformer Unit := ⟨fun _ _ state draft => ⟨state, draft, .ok ()⟩⟩
    let request : Request := ⟨[], ["Game.wbc"], "out"⟩
    let files := ((run idle {} request () : Task Failure _).run fs).files
    let stale : Location := ["out".toList, ".weft-staging".toList, "Old".toList]
    let notes : Location := ["out".toList, "Notes.txt".toList]
    fs.get? stale = some .directory ∧ files.get? stale = none ∧
      ["out".toList, ".weft-staging".toList] <+: stale ∧ files.get? notes = some (.file [104, 105]) := by
  intro fs idle request files stale notes
  have sound : ({} : Settings).validate = .ok {} := by decide +kernel
  have tree : fs.IsTree := is_tree_write (make_dirs_grows (is_tree_write (empty_is_tree []) _ _) _).2 _ _
  have stood : fs.get? stale = some .directory := by decide +kernel
  have gone : files.get? stale = none := by decide +kernel
  have place : fs.place (request.outputDir.join ({} : Settings).stagingDir.toList) =
      ["out".toList, ".weft-staging".toList] := by decide +kernel
  have foreign : ¬ (notes ∈ fs.way request.outputDir ∨ ["out".toList, ".weft-staging".toList] <+: notes ∨
      ∃ name ∈ namesOfBatch {} request, notes = fs.place request.outputDir ++ [name]) := by decide +kernel
  obtain ⟨_, _, kept⟩ := run_confined (ε := Failure) idle {} request () fs sound tree
  rw [place] at kept
  refine ⟨stood, gone, (kept stale).2 (by rw [stood]; exact Option.some_ne_none _) gone, ?_⟩
  have same : files.get? notes = fs.get? notes := by
    by_contra changed
    exact foreign ((kept notes).1 changed)
  rw [same]
  decide +kernel

end Batch

end Loom
