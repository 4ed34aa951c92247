import Loom.Proofs.Tasks
import Loom.Staging

set_option autoImplicit false

namespace Loom

open Loom.FileSystem Loom.Path

namespace StagingArea

structure Opened (o : Path) (name : List Char) (fs after : FileSystem) : Prop where
  tree : after.IsTree
  reaches : after.Reaches (o.join name)
  way : ∀ d ∈ fs.way (o.join name), after.get? d = some .directory
  grows : Grows (¬ fs.place o ++ [name] <+: ·) (· ∈ fs.way o) fs after
  free : ∀ content, fs.get? (fs.place o ++ [name]) ≠ some (.file content)

theorem make_dirs_opened {fs made : FileSystem} (tree : fs.IsTree) (o : Path) {name : List Char}
    (proper : IsName name) (done : fs.makeDirs (o.join name) = (.ok (), made)) :
    Opened o name fs made := by
  obtain ⟨grows, still⟩ := make_dirs_grows tree (o.join name)
  obtain ⟨reaches, way⟩ := make_dirs_join tree proper done
  rw [done] at grows still
  have last : fs.place o ++ [name] ∈ fs.way (o.join name) := by
    rw [way_join fs o proper]
    exact List.mem_append_right _ (List.mem_singleton_self _)
  refine ⟨still, reaches, way, ⟨grows.here, fun spot outside => ?_⟩, fun content file => ?_⟩
  · refine (grows.entries spot trivial).imp_right fun added => ?_
    obtain ⟨missing, isNew, there⟩ := added
    rw [way_join fs o proper] at isNew
    rcases List.mem_append.mp isNew with onWay | staging
    · exact ⟨missing, onWay, there⟩
    · exact absurd (List.mem_singleton.mp staging ▸ List.prefix_rfl) outside
  · cases grows.entries (fs.place o ++ [name]) trivial with
    | inl same =>
        rw [way _ last, file] at same
        cases same
    | inr added =>
        rw [file] at added
        exact absurd added.1 (Option.some_ne_none _)

theorem create_ensures {fs : FileSystem} (tree : fs.IsTree) (o : Path) {name : String}
    (proper : IsName name.toList) (pretty : Bool) :
    (create o name pretty).Ensures fs
      (fun area after => area = ⟨o.join name.toList, layoutOf pretty, []⟩ ∧ Opened o name.toList fs after)
      (fun e _ => ∃ path cause, e = .io path cause) := by
  unfold create orIo
  simp only [Task.ensures_bind, Task.ensures_kind_of]
  by_cases stale : (fs.kind? (o.join name.toList)).isSome = true
  · rw [if_pos stale]
    obtain ⟨kind, known⟩ := Option.isSome_iff_exists.mp stale
    obtain ⟨entry, found, _⟩ := (kind_eq_some_iff fs _ kind).mp known
    obtain ⟨reaches, _, there, _⟩ := (find_eq_ok_iff fs _ _ entry).mp found
    rw [look_join fs o proper] at there
    simp only [Task.ensures_bind, Task.ensures_tell, Task.ensures_remove_tree, Task.ensures_or_fail]
    refine ⟨fun _ removed => ?_, fun e _ => ⟨_, e, rfl⟩⟩
    -- A file in the place of the directory cannot be removed as one.
    cases entry with
    | file content =>
        rw [FileSystem.removeTree, found] at removed
        cases removed
    | directory =>
        obtain ⟨_, vacated⟩ := remove_tree_vacates fs o proper reaches there
        have cleared : Grows (¬ fs.place o ++ [name.toList] <+: ·) (· ∈ fs.way o) fs
            (fs.removeTree (o.join name.toList)).2 :=
          ⟨vacated.here, fun spot outside => .inl (vacated.outside spot outside)⟩
        have still := is_tree_remove_tree tree (o.join name.toList)
        simp only [Task.ensures_make_dirs, Task.ensures_or_fail, Task.ensures_pure]
        refine ⟨fun _ made => ⟨trivial, ?_⟩, fun e _ => ⟨_, e, rfl⟩⟩
        have opened := make_dirs_opened still o proper (Prod.ext made rfl)
        obtain ⟨tree, reaches, way, grows, _⟩ := opened
        rw [way_congr cleared.here] at way
        rw [way_congr cleared.here, place_congr cleared.here] at grows
        exact ⟨tree, reaches, way, grows_trans cleared grows, fun content file => by
          rw [there] at file
          cases file⟩
  · rw [if_neg stale]
    simp only [Task.ensures_pure, Task.ensures_make_dirs, Task.ensures_bind, Task.ensures_or_fail]
    exact ⟨fun _ made => ⟨trivial, make_dirs_opened tree o proper (Prod.ext made rfl)⟩,
      fun e _ => ⟨_, e, rfl⟩⟩

structure Staged (d : Path) (fs after : FileSystem) : Prop where
  keeps : Keeps (Below (fs.place d)) fs after
  tree : after.IsTree

theorem staged_refl {fs : FileSystem} (tree : fs.IsTree) (d : Path) : Staged d fs fs :=
  ⟨keeps_refl _ fs, tree⟩

theorem staged_trans {d : Path} {fs mid after : FileSystem} (first : Staged d fs mid)
    (second : Staged d mid after) : Staged d fs after := by
  refine ⟨keeps_trans first.keeps ?_, second.tree⟩
  have keeps := second.keeps
  rwa [place_congr first.keeps.here] at keeps

def lastWritten (files : List (List Char × Bytes)) (name : List Char) : Option Bytes := files.reverse.lookup name

theorem last_written_append (files more : List (List Char × Bytes)) (name : List Char) :
    lastWritten (files ++ more) name = (lastWritten more name).or (lastWritten files name) := by
  rw [lastWritten, List.reverse_append, List.lookup_append]
  rfl

structure Wrote (d : Path) (files : List (List Char × Bytes)) (fs after : FileSystem) : Prop where
  staged : Staged d fs after
  named : ∀ file ∈ files, IsName file.1
  content : ∀ name, after.get? (fs.place d ++ [name]) =
    ((lastWritten files name).map Entry.file).or (fs.get? (fs.place d ++ [name]))

theorem wrote_nothing {fs : FileSystem} (tree : fs.IsTree) (d : Path) : Wrote d [] fs fs :=
  ⟨staged_refl tree d, List.forall_mem_nil _, fun _ => rfl⟩

theorem wrote_trans {d : Path} {files more : List (List Char × Bytes)} {fs mid after : FileSystem}
    (first : Wrote d files fs mid) (second : Wrote d more mid after) : Wrote d (files ++ more) fs after := by
  refine ⟨staged_trans first.staged second.staged, List.forall_mem_append.mpr ⟨first.named, second.named⟩,
    fun name => ?_⟩
  have content := second.content name
  rw [place_congr first.staged.keeps.here] at content
  rw [content, first.content, last_written_append]
  cases lastWritten more name <;> rfl

def Stages {ε α : Type} (d : Path) (t : Task ε α) (fs : FileSystem)
    (good : α → List (List Char × Bytes) → Prop) : Prop :=
  t.Ensures fs (fun a after => ∃ files, Wrote d files fs after ∧ good a files) fun _ after => Staged d fs after

theorem stages_then {ε α β : Type} {d : Path} {t : Task ε β} {f : β → Task ε α} {fs : FileSystem}
    {mid : β → List (List Char × Bytes) → Prop} {good : α → List (List Char × Bytes) → Prop}
    (first : Stages d t fs mid)
    (next : ∀ b files after, after.IsTree → mid b files →
      Stages d (f b) after fun a more => good a (files ++ more)) : Stages d (t >>= f) fs good := by
  apply Task.ensures_then first
  intro b after facts
  obtain ⟨files, wrote, holds⟩ := facts
  apply Task.ensures_mono (next b files after wrote.staged.tree holds)
  · intro a last ends
    obtain ⟨more, also, result⟩ := ends
    exact ⟨files ++ more, wrote_trans wrote also, result⟩
  · intro e last failed
    exact staged_trans wrote.staged failed

theorem stages_pure {ε α : Type} {d : Path} {fs : FileSystem} (tree : fs.IsTree) {a : α}
    {good : α → List (List Char × Bytes) → Prop} (holds : good a []) : Stages d (pure a : Task ε α) fs good :=
  (Task.ensures_pure a).mpr ⟨[], wrote_nothing tree d, holds⟩

-- The name of a companion file may come out as two dots, where no file can be written.
theorem write_parent_fails {fs : FileSystem} (tree : fs.IsTree) (d : Path) (content : Bytes) :
    ∃ e, fs.write (d.join ['.', '.']) content = (.error e, fs) := by
  rcases write_cases fs (d.join ['.', '.']) content with failed | ⟨_, reaches, _, leaf⟩
  · exact failed
  · exfalso
    obtain ⟨front, name, whole, _, notDotDot, _⟩ := last_name_of_leaf tree reaches leaf
    rw [names_join d (by decide) (by decide)] at whole
    exact notDotDot (List.singleton_inj.mp (List.append_inj' whole rfl).2).symm

theorem write_file_stages {fs : FileSystem} (tree : fs.IsTree) (d : Path) {name : List Char}
    (shaped : name = ['.', '.'] ∨ IsName name) (content : Bytes) (explain : IoError → Failure) :
    Stages d (Task.writeFile (d.join name) content explain) fs fun _ files => files = [(name, content)] := by
  unfold Stages
  rw [Task.ensures_write_file]
  cases shaped with
  | inl dots =>
      obtain ⟨e, failed⟩ := write_parent_fails tree d content
      rw [dots, failed]
      refine ⟨fun _ written => ?_, fun _ _ => staged_refl tree d⟩
      cases written
  | inr proper =>
      have place := place_join fs d proper
      have inside : ∀ l, l = fs.place (d.join name) → Below (fs.place d) l := by
        intro l same
        rw [same, place]
        exact below_child _ name
      have staged : Staged d fs (fs.write (d.join name) content).2 :=
        ⟨keeps_wider inside (write_keeps tree (d.join name) content), is_tree_write tree _ content⟩
      refine ⟨fun _ done => ⟨_, ⟨staged, List.forall_mem_singleton.mpr proper, fun other => ?_⟩, rfl⟩,
        fun _ _ => staged⟩
      rcases write_cases fs (d.join name) content with ⟨e, failed⟩ | ⟨written, _, _, leaf⟩
      · rw [failed] at done
        cases done
      · rw [written, get_put_leaf tree (leaf_of_look leaf), place]
        by_cases same : other = name
        · rw [same, if_pos rfl, lastWritten, List.reverse_singleton, List.lookup_cons_self]
          rfl
        · have apart : fs.place d ++ [other] ≠ fs.place d ++ [name] :=
            fun whole => same (List.singleton_inj.mp (List.append_cancel_left whole))
          rw [if_neg apart, lastWritten, List.reverse_singleton, List.lookup_cons, beq_false_of_ne same]
          rfl

theorem symbol_path_join (d : Path) {name : List Char} (proper : IsName name) :
    symbolPath (d.join name) = d.join (extended name SymbolTable.fileExtension) :=
  with_extension_join d proper (by decide)

theorem metadata_path_join (d : Path) {name : List Char} (proper : IsName name) :
    metadataPath (d.join name) = d.join (extended name ApiMetadata.fileExtension) :=
  with_extension_join d proper (by decide)

def StandsIn (d path : Path) : Prop := ∃ name, IsName name ∧ path = d.join name

def filesOf (name : List Char) (module : Module) (symbols : Option SymbolTable) (metadata : String) :
    List (List Char × Bytes) :=
  (name, module.encode) ::
    (symbols.toList.map (fun table => (extended name SymbolTable.fileExtension, table.encode)) ++
      [(extended name ApiMetadata.fileExtension, Bytes.ofText metadata)])

def pathsOf (d : Path) (name : List Char) (symbols : Option SymbolTable) : StagedModule :=
  ⟨d.join name, metadataPath (d.join name), symbols.map fun _ => symbolPath (d.join name)⟩

theorem write_symbols_stages {fs : FileSystem} (tree : fs.IsTree) (d : Path) {name : List Char}
    (proper : IsName name) (symbols : Option SymbolTable) :
    Stages d (writeSymbols (d.join name) symbols) fs fun answer files =>
      answer = symbols.map (fun _ => symbolPath (d.join name)) ∧
      files = symbols.toList.map fun table => (extended name SymbolTable.fileExtension, table.encode) := by
  cases symbols with
  | none => exact stages_pure tree ⟨rfl, rfl⟩
  | some table =>
      have shaped : extended name SymbolTable.fileExtension = ['.', '.'] ∨ _ :=
        extended_cases proper (by decide) (by decide)
      unfold writeSymbols
      rw [symbol_path_join d proper]
      apply stages_then (write_file_stages tree d shaped _ _)
      intro _ files after staged written
      rw [written]
      exact stages_pure staged ⟨rfl, rfl⟩

theorem write_metadata_stages {fs : FileSystem} (tree : fs.IsTree) (d : Path) {name : List Char}
    (proper : IsName name) (content : Bytes) (explain : IoError → Failure) :
    Stages d (Task.writeFile (metadataPath (d.join name)) content explain) fs
      fun _ files => files = [(extended name ApiMetadata.fileExtension, content)] := by
  have shaped : extended name ApiMetadata.fileExtension = ['.', '.'] ∨ _ :=
    extended_cases proper (by decide) (by decide)
  rw [metadata_path_join d proper]
  exact write_file_stages tree d shaped content explain

theorem report_staged_stages {fs : FileSystem} (tree : fs.IsTree) (d : Path) (paths : List Path) :
    Stages d (reportStaged paths : Task Failure Unit) fs fun _ files => files = [] := by
  induction paths with
  | nil => exact stages_pure tree rfl
  | cons path rest ih => exact (Task.ensures_report _ _).mpr ih

theorem write_stages {fs : FileSystem} (tree : fs.IsTree) (area : StagingArea) {fileName : String}
    (proper : IsName fileName.toList) (module : Module) (symbols : Option SymbolTable)
    (metadata : ApiMetadata) :
    Stages area.dir (area.write fileName module symbols metadata) fs fun answer files =>
      module.verify = .ok () ∧
      files = filesOf fileName.toList module symbols (metadata.toText area.layout) ∧
      answer = (pathsOf area.dir fileName.toList symbols,
        { area with staged := area.staged ++ (pathsOf area.dir fileName.toList symbols).paths }) := by
  have verified : Stages area.dir (Task.orFail (Failure.verify module.name) module.verify) fs
      fun _ files => module.verify = .ok () ∧ files = [] := by
    unfold Stages
    rw [Task.ensures_or_fail]
    exact ⟨fun _ sound => ⟨[], wrote_nothing tree area.dir, sound, rfl⟩, fun _ _ => staged_refl tree area.dir⟩
  refine stages_then verified fun _ none start tree sound => ?_
  refine stages_then (write_file_stages tree area.dir (.inr proper) _ _) fun _ first _ tree written => ?_
  refine stages_then (write_symbols_stages tree area.dir proper symbols) fun path second _ tree wroteSymbols => ?_
  refine stages_then (write_metadata_stages tree area.dir proper _ _) fun _ third _ tree wroteMetadata => ?_
  refine stages_then (report_staged_stages tree area.dir _) fun _ last _ tree silent => ?_
  obtain ⟨samePath, wroteSymbols⟩ := wroteSymbols
  refine stages_pure tree ⟨sound.1, ?_, ?_⟩
  · rw [sound.2, written, wroteSymbols, wroteMetadata, silent]
    rfl
  · rw [samePath]
    rfl

def namesOf (name : List Char) (symbols : Option SymbolTable) : List (List Char) :=
  name :: extended name ApiMetadata.fileExtension ::
    symbols.toList.map fun _ => extended name SymbolTable.fileExtension

theorem paths_of_eq (d : Path) {name : List Char} (proper : IsName name) (symbols : Option SymbolTable) :
    (pathsOf d name symbols).paths = (namesOf name symbols).map d.join := by
  cases symbols with
  | none => simp [pathsOf, namesOf, StagedModule.paths, metadata_path_join d proper]
  | some table => simp [pathsOf, namesOf, StagedModule.paths, metadata_path_join d proper, symbol_path_join d proper]

theorem names_of_perm (name : List Char) (module : Module) (symbols : Option SymbolTable) (metadata : String) :
    ((filesOf name module symbols metadata).map Prod.fst).Perm (namesOf name symbols) := by
  cases symbols with
  | none => exact List.Perm.refl _
  | some table => exact (List.Perm.swap _ _ _).cons _

-- The paths of a module are those of its files, though in another order.
theorem mem_paths_of_iff (d : Path) {name : List Char} (proper : IsName name) (module : Module)
    (symbols : Option SymbolTable) (metadata : String) (path : Path) :
    path ∈ (pathsOf d name symbols).paths ↔
      ∃ file ∈ filesOf name module symbols metadata, d.join file.1 = path := by
  rw [paths_of_eq d proper, List.mem_map]
  simp only [← (names_of_perm name module symbols metadata).mem_iff, List.mem_map]
  constructor
  · intro found
    obtain ⟨_, ⟨file, member, rfl⟩, same⟩ := found
    exact ⟨file, member, same⟩
  · intro found
    obtain ⟨file, member, same⟩ := found
    exact ⟨file.1, ⟨file, member, rfl⟩, same⟩

end StagingArea

end Loom
