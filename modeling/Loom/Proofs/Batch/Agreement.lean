import Loom.Proofs.Batch.Replanning
import Loom.Proofs.TwoRuns

set_option autoImplicit false

/-! Planning one batch on two trees comes to one failure, or to plans that differ in the files that references are
resolved to. -/
namespace Loom

open Loom.Task

variable {fs other : FileSystem}

theorem agree_read_module {path : Path} (found : other.find path = fs.find path) :
    (readModule path).Agree Eq fs (readModule path) other := by
  apply agree_bind (agree_read_file (by rw [FileSystem.read, FileSystem.read, found]))
  rintro bytes _ rfl
  exact agree_or_fail _ _

theorem agree_read_symbol_table {path : Path} (found : other.find path = fs.find path) :
    (readSymbolTable path).Agree Eq fs (readSymbolTable path) other := by
  apply agree_bind (agree_read_file (by rw [FileSystem.read, FileSystem.read, found]))
  rintro bytes _ rfl
  exact agree_or_fail _ _

theorem agree_load_symbols {modulePath : Path} (moduleName : String)
    (found : other.find (symbolPath modulePath) = fs.find (symbolPath modulePath)) :
    (loadSymbols modulePath moduleName).Agree Eq fs (loadSymbols modulePath moduleName) other := by
  unfold loadSymbols
  apply agree_bind (agree_is_file (by rw [FileSystem.kind?, FileSystem.kind?, found]))
  rintro isFile _ rfl
  cases isFile with
  | false => exact agree_pure rfl
  | true =>
      apply agree_bind (agree_attempt (agree_read_symbol_table found))
      rintro answer _ rfl
      apply agree_bind (agree_or_fail _ answer)
      rintro table _ rfl
      split
      · exact agree_pure rfl
      · exact agree_fail _

def FoundAlike (fs other : FileSystem) (path : Path) : Prop :=
  other.find path = fs.find path ∧ other.find (symbolPath path) = fs.find (symbolPath path)

theorem FoundAlike.kind {path : Path} (found : FoundAlike fs other path) : other.kind? path = fs.kind? path := by
  rw [FileSystem.kind?, FileSystem.kind?, found.1]

theorem agree_load_module (search : SearchPath) (readSymbols : Bool) {path : Path} (found : FoundAlike fs other path) :
    (loadModule search readSymbols path).Agree (fun loaded again => again.bare = loaded.bare) fs
      (loadModule search readSymbols path) other := by
  unfold loadModule
  apply agree_bind (agree_is_file found.kind)
  rintro isFile _ rfl
  cases isFile with
  | false => exact agree_fail _
  | true =>
      apply agree_bind (agree_attempt (agree_read_module found.1))
      rintro answer _ rfl
      apply agree_bind (agree_or_fail _ answer)
      rintro module _ rfl
      have resolved : ∀ symbols : Option SymbolTable,
          let loading := Task.each (resolveReference search module.name) module.references >>= fun references =>
            (pure ⟨module, path, symbols, references⟩ : Task Failure LoadedModule)
          loading.Agree (fun loaded again => again.bare = loaded.bare) fs loading other := by
        intro symbols loading
        have resolves : ∀ fs : FileSystem, (Task.each (resolveReference search module.name) module.references :
            Task Failure _).Looks fs _ fun _ => False :=
          fun fs => looks_each module.references fun reference _ => looks_resolve_reference search module.name reference
        apply agree_bind (agree_of_looks (resolves fs) (resolves other))
        exact fun references again _ => agree_pure rfl
      cases readSymbols with
      | true =>
          apply agree_bind (agree_load_symbols module.name found.2)
          rintro symbols _ rfl
          exact resolved symbols
      | false => exact resolved none

theorem agree_first_missing {ε : Type} {paths : List Path} (found : ∀ path ∈ paths, FoundAlike fs other path) :
    (firstMissing paths : Task ε _).Agree Eq fs (firstMissing paths) other := by
  induction paths with
  | nil => exact agree_pure rfl
  | cons path rest ih =>
      obtain ⟨first, later⟩ := List.forall_mem_cons.mp found
      unfold firstMissing
      apply agree_bind (agree_is_file first.kind)
      rintro isFile _ rfl
      cases isFile with
      | true => exact ih later
      | false => exact agree_pure rfl

theorem agree_load_modules (search : SearchPath) (readSymbols : Bool) {targets : List String}
    (found : ∀ target ∈ targets, FoundAlike fs other (Path.ofString (Text.unquote target))) :
    (loadModules search readSymbols targets).Agree
      (fun modules again => again.map LoadedModule.bare = modules.map LoadedModule.bare) fs
      (loadModules search readSymbols targets) other := by
  have paths := List.forall_mem_map.mpr found
  unfold loadModules
  apply agree_bind (agree_first_missing paths)
  rintro missing _ rfl
  cases missing with
  | some path => exact agree_fail _
  | none =>
      have reported : ∀ path ∈ targets.map fun target => Path.ofString (Text.unquote target),
          (loadReporting search readSymbols path).Agree (fun loaded again => again.bare = loaded.bare) fs
            (loadReporting search readSymbols path) other := by
        intro path member
        apply agree_bind (agree_load_module search readSymbols (paths path member))
        intro loaded again same
        exact agree_bind (agree_tell _ _) fun _ _ _ => agree_pure same
      apply agree_mono (agree_each _ reported)
      intro modules again pairs
      induction pairs with
      | nil => rfl
      | cons first _ ih => exact congr_arg₂ List.cons first ih

namespace Batch

theorem duplicate_output_bare (seen modules : List LoadedModule) :
    duplicateOutput (seen.map LoadedModule.bare) (modules.map LoadedModule.bare) = duplicateOutput seen modules := by
  induction modules generalizing seen with
  | nil => rfl
  | cons m rest ih =>
      have found : (seen.map LoadedModule.bare).find? (fun first => first.stem = m.bare.stem) =
          (seen.find? fun first => first.stem = m.stem).map LoadedModule.bare := List.find?_map
      have later := ih (seen ++ [m])
      rw [List.map_append, List.map_singleton] at later
      rw [List.map_cons, duplicateOutput, duplicateOutput, found]
      cases seen.find? fun first => first.stem = m.stem with
      | none => exact later
      | some first => rfl

theorem agree_plan {references targets : List String} (readSymbols : Bool)
    (dirs : ∀ raw ∈ references, ∀ dir ∈ SearchPath.dirOf? (Text.unquote raw), other.kind? dir = fs.kind? dir)
    (found : ∀ target ∈ targets, FoundAlike fs other (Path.ofString (Text.unquote target))) :
    (plan references targets readSymbols).Agree (fun planned again => again.bare = planned.bare) fs
      (plan references targets readSymbols) other := by
  have keeps : ∀ fs : FileSystem, (SearchPath.ofReferences references).Looks fs _ Failure.Plain :=
    fun fs => SearchPath.looks_add_all {} references
  unfold plan
  apply agree_bind (agree_of_result (looks_files (keeps fs)) (looks_files (keeps other))
    (SearchPath.add_all_again {} references dirs))
  rintro search _ rfl
  apply agree_bind (agree_load_modules search readSymbols found)
  intro modules again same
  have duplicate : duplicateOutput [] again = duplicateOutput [] modules := by
    rw [← duplicate_output_bare, same]
    exact duplicate_output_bare [] modules
  rw [duplicate]
  split
  · exact agree_fail _
  · apply agree_bind (agree_of_looks (looks_order_eq _) (looks_order_eq _))
    rintro order reordered ⟨rfl, rfl⟩
    apply agree_pure
    rw [order_nodes_of_bare same]
    unfold Plan.bare
    rw [same]

end Batch

end Loom
