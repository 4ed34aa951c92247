import Loom.Loading
import Loom.Proofs.Tasks

set_option autoImplicit false

namespace Loom

def Failure.Plain (e : Failure) : Prop := ∀ stem cause, e ≠ .batch stem cause

open Loom.Task

variable {fs : FileSystem}

namespace SearchPath

theorem looks_add {ε : Type} {bad : ε → Prop} (search : SearchPath) (raw : String) :
    (search.add raw : Task ε _).Looks fs (fun answer =>
      answer.2.references = search.references ++ [Text.unquote raw] ∧ ∀ e, answer.1 = .error e → e.Plain) bad := by
  have fine : ∀ {answer : Except Failure Unit × SearchPath}, answer.1 = .ok () →
      ∀ e, answer.1 = .error e → e.Plain := by
    intro answer good e failed
    rw [good] at failed
    cases failed
  unfold add
  dsimp only
  split
  · exact looks_pure ⟨rfl, fine rfl⟩
  · split
    · exact looks_pure ⟨rfl, fine rfl⟩
    · apply looks_then (looks_is_dir _)
      intro found _
      cases found with
      | true =>
          apply looks_then (looks_tell _)
          intro _ _
          exact looks_pure ⟨rfl, fine rfl⟩
      | false =>
          apply looks_pure
          refine ⟨rfl, fun e failed => ?_⟩
          cases failed
          exact fun _ _ => Failure.noConfusion

theorem looks_add_all (search : SearchPath) (raws : List String) :
    (search.addAll raws).Looks fs
      (fun all => all.references = search.references ++ raws.map Text.unquote) Failure.Plain := by
  induction raws generalizing search with
  | nil => exact looks_pure (List.append_nil _).symm
  | cons raw rest ih =>
      have added : (search.add raw : Task Failure _).Looks fs (fun answer =>
          answer.2.references = search.references ++ [Text.unquote raw] ∧
            ∀ e, answer.1 = .error e → e.Plain) Failure.Plain := looks_add search raw
      apply looks_then added
      intro answer facts
      obtain ⟨references, plain⟩ := facts
      have passed : (Task.ofExcept answer.1).Looks fs (fun _ => True) Failure.Plain :=
        looks_of_except (fun _ _ => trivial) plain
      apply looks_then passed
      intro _ _
      apply looks_mono (ih answer.2)
      · intro all later
        rw [later, references, List.append_assoc]
        rfl
      · exact fun _ plain => plain

theorem looks_find_in {ε : Type} {bad : ε → Prop} (moduleName : String) (dirs : List Path) :
    (findIn moduleName dirs : Task ε _).Looks fs (fun _ => True) bad := by
  induction dirs with
  | nil => exact looks_pure trivial
  | cons dir rest ih =>
      unfold findIn
      apply looks_then (looks_is_file _)
      intro found _
      cases found with
      | true => exact looks_pure trivial
      | false => exact ih

end SearchPath

theorem looks_read_module {bad : ReadError → Prop} (path : Path) (all : ∀ e, bad e) :
    (readModule path).Looks fs
      (fun m => ∃ bytes, fs.read path = .ok bytes ∧ Module.decode bytes = .ok m) bad := by
  have read : (Task.readFile path ReadError.io).Looks fs (fun bytes => fs.read path = .ok bytes) bad :=
    looks_read_file path fun _ => all _
  exact looks_then read fun bytes found => looks_or_fail (fun m done => ⟨bytes, found, done⟩) fun e => all _

theorem looks_read_symbol_table {bad : ReadError → Prop} (path : Path) (all : ∀ e, bad e) :
    (readSymbolTable path).Looks fs
      (fun table => ∃ bytes, fs.read path = .ok bytes ∧ SymbolTable.decode bytes = .ok table) bad := by
  have read : (Task.readFile path ReadError.io).Looks fs (fun bytes => fs.read path = .ok bytes) bad :=
    looks_read_file path fun _ => all _
  exact looks_then read fun bytes found => looks_or_fail (fun table done => ⟨bytes, found, done⟩) fun e => all _

structure LoadedModule.ReadFrom (fs : FileSystem) (loaded : LoadedModule) : Prop where
  isFile : fs.kind? loaded.origin = some .file
  module : ∃ bytes, fs.read loaded.origin = .ok bytes ∧ Module.decode bytes = .ok loaded.module
  symbols : ∀ table ∈ loaded.symbols, ∃ bytes,
    fs.read (symbolPath loaded.origin) = .ok bytes ∧ SymbolTable.decode bytes = .ok table

def SymbolsBeside (fs : FileSystem) (modulePath : Path) (moduleName : String) : Option SymbolTable → Prop
  | none => fs.kind? (symbolPath modulePath) ≠ some .file
  | some table => fs.kind? (symbolPath modulePath) = some .file ∧ table.moduleName = moduleName ∧ ∃ bytes,
    fs.read (symbolPath modulePath) = .ok bytes ∧ SymbolTable.decode bytes = .ok table

structure LoadedModule.Loads (fs : FileSystem) (readSymbols : Bool) (loaded : LoadedModule) : Prop where
  isFile : fs.kind? loaded.origin = some .file
  module : ∃ bytes, fs.read loaded.origin = .ok bytes ∧ Module.decode bytes = .ok loaded.module
  symbols : if readSymbols then SymbolsBeside fs loaded.origin loaded.module.name loaded.symbols
    else loaded.symbols = none

theorem LoadedModule.Loads.read_from {readSymbols : Bool} {loaded : LoadedModule} (loads : loaded.Loads fs readSymbols) :
    loaded.ReadFrom fs := by
  refine ⟨loads.isFile, loads.module, fun table has => ?_⟩
  have symbols := loads.symbols
  rw [Option.mem_def.mp has] at symbols
  cases readSymbols with
  | true => exact symbols.2.2
  | false => cases symbols

theorem LoadedModule.Loads.own_symbols {readSymbols : Bool} {loaded : LoadedModule} (loads : loaded.Loads fs readSymbols)
    {table : SymbolTable} (has : loaded.symbols = some table) : table.moduleName = loaded.module.name := by
  have symbols := loads.symbols
  rw [has] at symbols
  cases readSymbols with
  | true => exact symbols.2.1
  | false => cases symbols

theorem SymbolsBeside.elsewhere {after : FileSystem} {modulePath : Path} {moduleName : String}
    {symbols : Option SymbolTable} (beside : SymbolsBeside fs modulePath moduleName symbols)
    (same : after.find (symbolPath modulePath) = fs.find (symbolPath modulePath)) :
    SymbolsBeside after modulePath moduleName symbols := by
  have kind : after.kind? (symbolPath modulePath) = fs.kind? (symbolPath modulePath) := by
    rw [FileSystem.kind?, FileSystem.kind?, same]
  have read : after.read (symbolPath modulePath) = fs.read (symbolPath modulePath) := by
    rw [FileSystem.read, FileSystem.read, same]
  cases symbols with
  | none => rwa [SymbolsBeside, kind]
  | some table => rwa [SymbolsBeside, kind, read]

theorem LoadedModule.Loads.elsewhere {after : FileSystem} {readSymbols : Bool} {loaded : LoadedModule}
    (loads : loaded.Loads fs readSymbols) (module : after.find loaded.origin = fs.find loaded.origin)
    (symbols : after.find (symbolPath loaded.origin) = fs.find (symbolPath loaded.origin)) :
    loaded.Loads after readSymbols := by
  obtain ⟨isFile, decoded, beside⟩ := loads
  refine ⟨?_, ?_, ?_⟩
  · rwa [FileSystem.kind?, module, ← FileSystem.kind?]
  · rwa [FileSystem.read, module, ← FileSystem.read]
  · cases readSymbols with
    | true => exact SymbolsBeside.elsewhere beside symbols
    | false => exact beside

theorem looks_load_symbols (modulePath : Path) (moduleName : String) :
    (loadSymbols modulePath moduleName).Looks fs (SymbolsBeside fs modulePath moduleName) Failure.Plain := by
  unfold loadSymbols
  apply looks_then (looks_is_file _)
  intro found isFile
  cases found with
  | false => exact looks_pure fun stands => Bool.noConfusion (isFile.mpr stands)
  | true =>
      apply looks_then (looks_attempt (looks_read_symbol_table _ fun _ => trivial))
      intro answer facts
      have passed : (Task.orFail (Failure.symbols (symbolPath modulePath)) answer).Looks fs
          (fun table => answer = .ok table) Failure.Plain :=
        looks_or_fail (fun _ same => same) fun _ _ _ => Failure.noConfusion
      apply looks_then passed
      intro table same
      split
      · rename_i own
        exact looks_pure ⟨isFile.mp rfl, own, facts.1 table same⟩
      · exact looks_fail fun _ _ => Failure.noConfusion

theorem looks_resolve_reference {ε : Type} {bad : ε → Prop} (search : SearchPath) (moduleName : String)
    (reference : Identity) :
    (resolveReference search moduleName reference : Task ε _).Looks fs (fun _ => True) bad := by
  unfold resolveReference
  apply looks_then (SearchPath.looks_find_in reference.name search.dirs)
  intro found _
  cases found with
  | some path => exact looks_pure trivial
  | none => exact looks_then (looks_tell _) fun _ _ => looks_pure trivial

theorem looks_load_module (search : SearchPath) (readSymbols : Bool) (path : Path) :
    (loadModule search readSymbols path).Looks fs
      (fun loaded => loaded.origin = path ∧ loaded.Loads fs readSymbols) Failure.Plain := by
  unfold loadModule
  apply looks_then (looks_is_file path)
  intro found isFile
  cases found with
  | false => exact looks_fail fun _ _ => Failure.noConfusion
  | true =>
      apply looks_then (looks_attempt (looks_read_module path fun _ => trivial))
      intro answer facts
      have passed : (Task.orFail (Failure.load path) answer).Looks fs (fun m => answer = .ok m) Failure.Plain :=
        looks_or_fail (fun _ same => same) fun _ _ _ => Failure.noConfusion
      apply looks_then passed
      intro module same
      have resolved : ∀ symbols : Option SymbolTable,
          (if readSymbols then SymbolsBeside fs path module.name symbols else symbols = none) →
          (Task.each (resolveReference search module.name) module.references >>= fun references =>
            (pure ⟨module, path, symbols, references⟩ : Task Failure LoadedModule)).Looks fs
          (fun loaded => loaded.origin = path ∧ loaded.Loads fs readSymbols) Failure.Plain := by
        intro symbols beside
        apply looks_then (looks_each module.references fun reference _ =>
          looks_resolve_reference search module.name reference)
        intro references _
        exact looks_pure ⟨rfl, isFile.mp rfl, facts.1 module same, beside⟩
      cases readSymbols with
      | true => exact looks_then (looks_load_symbols path module.name) fun symbols found => resolved symbols found
      | false => exact resolved none rfl

theorem looks_load_reporting (search : SearchPath) (readSymbols : Bool) (path : Path) :
    (loadReporting search readSymbols path).Looks fs
      (fun loaded => loaded.origin = path ∧ loaded.Loads fs readSymbols) Failure.Plain := by
  apply looks_then (looks_load_module search readSymbols path)
  intro loaded facts
  exact looks_then (looks_tell _) fun _ _ => looks_pure facts

theorem looks_first_missing {ε : Type} {bad : ε → Prop} (paths : List Path) :
    (firstMissing paths : Task ε _).Looks fs (fun _ => True) bad := by
  induction paths with
  | nil => exact looks_pure trivial
  | cons path rest ih =>
      unfold firstMissing
      apply looks_then (looks_is_file path)
      intro found _
      cases found with
      | true => exact ih
      | false => exact looks_pure trivial

theorem looks_load_modules (search : SearchPath) (readSymbols : Bool) (targets : List String) :
    (loadModules search readSymbols targets).Looks fs
      (fun modules => modules.map (·.origin) = targets.map (fun target => Path.ofString (Text.unquote target)) ∧
        ∀ loaded ∈ modules, loaded.Loads fs readSymbols) Failure.Plain := by
  unfold loadModules
  apply looks_then (looks_first_missing _)
  intro missing _
  cases missing with
  | some path => exact looks_fail fun _ _ => Failure.noConfusion
  | none =>
      apply looks_mono (looks_each _ fun path _ => looks_load_reporting search readSymbols path)
      · intro modules pairs
        generalize targets.map (fun target => Path.ofString (Text.unquote target)) = paths at pairs
        induction pairs with
        | nil => exact ⟨rfl, List.forall_mem_nil _⟩
        | cons first _ ih =>
            exact ⟨congr_arg₂ List.cons first.1 ih.1, List.forall_mem_cons.mpr ⟨first.2, ih.2⟩⟩
      · exact fun _ plain => plain

section Again

def LoadedModule.bare (loaded : LoadedModule) : LoadedModule := { loaded with references := [] }

theorem SearchPath.add_again {ε : Type} {after : FileSystem} (search : SearchPath) (raw : String)
    (same : ∀ dir ∈ dirOf? (Text.unquote raw), after.kind? dir = fs.kind? dir) :
    ((search.add raw : Task ε _).run after).result = ((search.add raw : Task ε _).run fs).result := by
  unfold add
  dsimp only
  split
  · rfl
  · rename_i dir found
    split
    · rfl
    · change (Task.run (if decide (after.kind? dir = some .directory) = true then _ else _) after).result =
        (Task.run (if decide (fs.kind? dir = some .directory) = true then _ else _) fs).result
      rw [same dir found]
      split
      · rfl
      · rfl

theorem SearchPath.add_all_again {after : FileSystem} (search : SearchPath) (raws : List String)
    (same : ∀ raw ∈ raws, ∀ dir ∈ dirOf? (Text.unquote raw), after.kind? dir = fs.kind? dir) :
    ((search.addAll raws).run after).result = ((search.addAll raws).run fs).result := by
  induction raws generalizing search with
  | nil => rfl
  | cons raw rest ih =>
      obtain ⟨first, later⟩ := List.forall_mem_cons.mp same
      have keeps : ∀ fs : FileSystem, ((search.add raw : Task Failure _).run fs).files = fs := fun fs =>
        looks_files (looks_add search raw : (search.add raw : Task Failure _).Looks fs _ fun _ => True)
      have added : ((search.add raw : Task Failure _).run after).result = _ := add_again search raw first
      unfold addAll
      rw [run_bind_result, run_bind_result, keeps, keeps, added]
      cases ((search.add raw : Task Failure _).run fs).result with
      | error e => rfl
      | ok answer =>
          obtain ⟨result, next⟩ := answer
          cases result with
          | error e => rfl
          | ok _ => exact ih next later

theorem looks_read_module_again {path : Path} {bytes : Bytes} {module : Module} (found : fs.read path = .ok bytes)
    (decoded : Module.decode bytes = .ok module) : (readModule path).Looks fs (· = module) fun _ => False := by
  apply looks_then (looks_read_file_again found)
  intro _ same
  rw [same, decoded]
  exact looks_pure rfl

theorem looks_read_symbol_table_again {path : Path} {bytes : Bytes} {table : SymbolTable}
    (found : fs.read path = .ok bytes) (decoded : SymbolTable.decode bytes = .ok table) :
    (readSymbolTable path).Looks fs (· = table) fun _ => False := by
  apply looks_then (looks_read_file_again found)
  intro _ same
  rw [same, decoded]
  exact looks_pure rfl

theorem looks_load_symbols_again {modulePath : Path} {moduleName : String} {symbols : Option SymbolTable}
    (beside : SymbolsBeside fs modulePath moduleName symbols) :
    (loadSymbols modulePath moduleName).Looks fs (· = symbols) fun _ => False := by
  unfold loadSymbols
  apply looks_then (looks_is_file _)
  intro found isFile
  cases symbols with
  | none =>
      cases found with
      | true => exact absurd (isFile.mp rfl) beside
      | false => exact looks_pure rfl
  | some table =>
      obtain ⟨stands, own, bytes, read, decoded⟩ := beside
      cases found with
      | false => exact Bool.noConfusion (isFile.mpr stands)
      | true =>
          apply looks_then (looks_attempt (looks_read_symbol_table_again read decoded))
          intro answer facts
          cases answer with
          | error e => exact (facts.2 e rfl).elim
          | ok again =>
              rw [facts.1 again rfl]
              apply looks_then (looks_pure rfl : (pure table : Task Failure _).Looks fs (· = table) _)
              intro _ same
              rw [same, if_pos own]
              exact looks_pure rfl

theorem looks_load_module_again {readSymbols : Bool} {loaded : LoadedModule} (loads : loaded.Loads fs readSymbols)
    (search : SearchPath) :
    (loadModule search readSymbols loaded.origin).Looks fs (fun again => again.bare = loaded.bare) fun _ => False := by
  obtain ⟨bytes, read, decoded⟩ := loads.module
  unfold loadModule
  apply looks_then (looks_is_file _)
  intro found isFile
  cases found with
  | false => exact Bool.noConfusion (isFile.mpr loads.isFile)
  | true =>
      apply looks_then (looks_attempt (looks_read_module_again read decoded))
      intro answer facts
      cases answer with
      | error e => exact (facts.2 e rfl).elim
      | ok module =>
          rw [facts.1 module rfl]
          apply looks_then (looks_pure rfl : (pure loaded.module : Task Failure _).Looks fs (· = loaded.module) _)
          intro _ same
          rw [same]
          have resolved : (Task.each (resolveReference search loaded.module.name) loaded.module.references >>=
              fun references => (pure ⟨loaded.module, loaded.origin, loaded.symbols, references⟩ :
                Task Failure LoadedModule)).Looks fs (fun again => again.bare = loaded.bare) fun _ => False := by
            apply looks_then (looks_each loaded.module.references fun reference _ =>
              looks_resolve_reference search loaded.module.name reference)
            exact fun references _ => looks_pure rfl
          have symbols := loads.symbols
          cases readSymbols with
          | true =>
              apply looks_then (looks_load_symbols_again symbols)
              intro _ same
              rw [same]
              exact resolved
          | false =>
              rw [if_neg Bool.false_ne_true] at symbols
              rw [symbols] at resolved
              exact resolved

-- Loading comes out as what there is to load, and what references are resolved to comes with it.
theorem load_module_iff (search : SearchPath) (readSymbols : Bool) (loaded : LoadedModule) :
    (∃ references, ((loadModule search readSymbols loaded.origin).run fs).result =
      .ok { loaded with references := references }) ↔ loaded.Loads fs readSymbols := by
  constructor
  · rintro ⟨references, result⟩
    obtain ⟨_, _, loads⟩ := (looks_load_module search readSymbols loaded.origin).done _ result
    exact ⟨loads.isFile, loads.module, loads.symbols⟩
  · intro loads
    obtain ⟨again, result, same⟩ := looks_succeeds (looks_load_module_again loads search)
    cases loaded
    cases again
    cases same
    exact ⟨_, result⟩

theorem looks_first_missing_again {ε : Type} {bad : ε → Prop} {paths : List Path}
    (there : ∀ path ∈ paths, fs.kind? path = some .file) :
    (firstMissing paths : Task ε _).Looks fs (· = none) bad := by
  induction paths with
  | nil => exact looks_pure rfl
  | cons path rest ih =>
      obtain ⟨first, later⟩ := List.forall_mem_cons.mp there
      unfold firstMissing
      apply looks_then (looks_is_file path)
      intro found isFile
      cases found with
      | true => exact ih later
      | false => exact Bool.noConfusion (isFile.mpr first)

theorem looks_load_modules_again {readSymbols : Bool} {targets : List String} {modules : List LoadedModule}
    (origins : modules.map (·.origin) = targets.map fun target => Path.ofString (Text.unquote target))
    (loads : ∀ loaded ∈ modules, loaded.Loads fs readSymbols) (search : SearchPath) :
    (loadModules search readSymbols targets).Looks fs
      (fun again => again.map LoadedModule.bare = modules.map LoadedModule.bare) fun _ => False := by
  have there : ∀ path ∈ modules.map (·.origin), fs.kind? path = some .file := by
    intro path member
    obtain ⟨loaded, inside, rfl⟩ := List.mem_map.mp member
    exact (loads loaded inside).isFile
  unfold loadModules
  rw [← origins]
  apply looks_then (looks_first_missing_again there)
  rintro _ rfl
  clear there origins
  induction modules with
  | nil => exact looks_pure rfl
  | cons loaded rest ih =>
      obtain ⟨first, later⟩ := List.forall_mem_cons.mp loads
      have reported : (loadReporting search readSymbols loaded.origin).Looks fs
          (fun again => again.bare = loaded.bare) fun _ => False := by
        apply looks_then (looks_load_module_again first search)
        exact fun again same => looks_then (looks_tell _) fun _ _ => looks_pure same
      apply looks_then reported
      intro again same
      apply looks_then (ih later)
      intro others sames
      exact looks_pure (congr_arg₂ List.cons same sames)

end Again

end Loom
