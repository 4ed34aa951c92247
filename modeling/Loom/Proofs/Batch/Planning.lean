import Loom.Batch
import Loom.Proofs.Loading
import Loom.Proofs.LoadOrder.Precedence

set_option autoImplicit false

namespace Loom

open Loom.Task

variable {fs : FileSystem}

namespace Batch

theorem duplicate_output_plain {seen modules : List LoadedModule} {e : Failure}
    (found : duplicateOutput seen modules = some e) : e.Plain := by
  induction modules generalizing seen with
  | nil => cases found
  | cons m rest ih =>
      rw [duplicateOutput] at found
      split at found
      · cases found
        exact fun _ _ => Failure.noConfusion
      · exact ih found

theorem duplicate_output_eq_none_iff (seen modules : List LoadedModule) :
    duplicateOutput seen modules = none ↔
      (modules.map LoadedModule.stem).Nodup ∧ ∀ m ∈ modules, ∀ first ∈ seen, first.stem ≠ m.stem := by
  induction modules generalizing seen with
  | nil => exact ⟨fun _ => ⟨List.nodup_nil, List.forall_mem_nil _⟩, fun _ => rfl⟩
  | cons m rest ih =>
      rw [duplicateOutput, List.map_cons, List.nodup_cons, List.forall_mem_cons]
      split
      · rename_i first found
        have same : first.stem = m.stem := by simpa using List.find?_some found
        refine ⟨fun failed => ?_, fun facts => ?_⟩
        · cases failed
        · exact absurd same (facts.2.1 first (List.mem_of_find?_eq_some found))
      · rename_i absent
        have fresh : ∀ first ∈ seen, first.stem ≠ m.stem := by simpa using absent
        rw [ih]
        constructor
        · intro facts
          obtain ⟨distinct, apart⟩ := facts
          refine ⟨⟨fun member => ?_, distinct⟩, fresh, fun other inside first member => ?_⟩
          · obtain ⟨other, inside, same⟩ := List.mem_map.mp member
            exact apart other inside m (List.mem_append_right seen (List.mem_singleton_self m)) same.symm
          · exact apart other inside first (List.mem_append_left _ member)
        · intro facts
          obtain ⟨⟨later, distinct⟩, _, apart⟩ := facts
          refine ⟨distinct, fun other inside first member => ?_⟩
          rcases List.mem_append.mp member with before | now
          · exact apart other inside first before
          · rw [List.mem_singleton.mp now]
            exact fun same => later (List.mem_map.mpr ⟨other, inside, same.symm⟩)

theorem looks_order_nodes {ε : Type} {bad : ε → Prop} (nodes : List OrderNode) :
    (orderNodes nodes : Task ε _).Looks fs (fun order => order.Perm (List.range nodes.length)) bad := by
  unfold orderNodes
  dsimp only
  split
  · exact looks_then (looks_tell _) fun _ _ => looks_pure (LoadOrder.order_perm nodes)
  · exact looks_pure (LoadOrder.order_perm nodes)

structure Planned (fs : FileSystem) (references targets : List String) (planned : Plan) : Prop where
  references : planned.search.references = references.map Text.unquote
  origins : planned.modules.map (·.origin) = targets.map fun target => Path.ofString (Text.unquote target)
  read : ∀ loaded ∈ planned.modules, loaded.ReadFrom fs
  stems : (planned.modules.map LoadedModule.stem).Nodup
  order : planned.order.Perm (List.range planned.modules.length)

theorem looks_plan (references targets : List String) (readSymbols : Bool) :
    (plan references targets readSymbols).Looks fs (Planned fs references targets) Failure.Plain := by
  unfold plan
  apply looks_then (SearchPath.looks_add_all {} references)
  intro search listed
  apply looks_then (looks_load_modules search readSymbols targets)
  intro modules facts
  split
  · rename_i failure found
    exact looks_fail (duplicate_output_plain found)
  · rename_i unrepeated
    apply looks_then (looks_order_nodes _)
    intro order complete
    rw [List.length_map] at complete
    exact looks_pure ⟨listed, facts.1, fun loaded member => (facts.2 loaded member).read_from,
      ((duplicate_output_eq_none_iff [] modules).mp unrepeated).1, complete⟩

theorem plan_answers (references targets : List String) (readSymbols : Bool) :
    (plan references targets readSymbols).Ensures fs
      (fun planned after => after = fs ∧ ((plan references targets readSymbols).run fs).result = .ok planned ∧
        Planned fs references targets planned)
      fun e _ => e.Plain := by
  have looks := looks_result (looks_plan references targets readSymbols : Task.Looks _ fs _ _)
  apply ensures_mono looks
  · exact fun planned after facts => ⟨facts.1, facts.2.2, facts.2.1⟩
  · exact fun e after facts => facts.2

theorem file_name_of_file (tree : fs.IsTree) {path : Path} (isFile : fs.kind? path = some .file) :
    ∃ d name, path = Path.join d name ∧ Path.IsName name := by
  obtain ⟨entry, found, kind⟩ := (FileSystem.kind_eq_some_iff fs path .file).mp isFile
  obtain ⟨reaches, _, there, slashed⟩ := (FileSystem.find_eq_ok_iff fs path _ entry).mp found
  cases entry with
  | directory => cases kind
  | file content =>
      have leaf : fs.look (fs.spot path) ≠ some .directory := by
        rw [there]
        intro same
        cases same
      have unslashed : FileSystem.ending path ≠ .slashed := by
        intro ends
        cases slashed ends
      exact Path.join_of_ending_name (FileSystem.ending_of_leaf tree reaches leaf unslashed)

end Batch

end Loom
