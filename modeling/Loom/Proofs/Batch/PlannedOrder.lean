import Loom.Proofs.Batch.Planning

set_option autoImplicit false

namespace Loom

namespace LoadOrder

variable {nodes : List OrderNode}

theorem acyclic_precedes (acyclic : ∀ i, ¬ Relation.TransGen (DependsOn nodes) i i) {i : Nat} {identity : String}
    (needs : Needs nodes i identity) :
    ∃ k, Named nodes k identity ∧ [k, i].Sublist (ofNodes nodes).order := by
  obtain ⟨order, placed, left, result, frontier, stuck⟩ := frontier_of_nodes nodes
  have inside : i < nodes.length := by
    obtain ⟨node, found, _⟩ := needs
    exact (List.getElem?_eq_some_iff.mp found).1
  have member : i ∈ order :=
    (settled_iff_resolvable frontier stuck i).mpr (resolvable_of_no_cycle i inside fun k _ => acyclic k)
  obtain ⟨k, named, before⟩ := settled_precedes frontier.settled i member identity needs
  rw [result]
  exact ⟨k, named, before.trans (List.sublist_append_left order _)⟩

end LoadOrder

namespace Batch

open Loom.Task

namespace Plan

def RefersTo (p : Plan) (i j : Nat) : Prop :=
  ∃ a ∈ p.modules[i]?, ∃ b ∈ p.modules[j]?, b.module.identity.fullName ∈ a.module.dependencies

def Namesakes (p : Plan) (i j : Nat) : Prop :=
  ∃ a ∈ p.modules[i]?, ∃ b ∈ p.modules[j]?, a.module.identity.fullName = b.module.identity.fullName

instance (p : Plan) (i j : Nat) : Decidable (p.RefersTo i j) :=
  inferInstanceAs (Decidable (∃ a ∈ p.modules[i]?, ∃ b ∈ p.modules[j]?, _))

def nodes (p : Plan) : List OrderNode := p.modules.map (·.module.orderNode)

theorem refers_to_eq (p : Plan) : p.RefersTo = LoadOrder.DependsOn p.nodes := by
  funext i j
  rw [LoadOrder.depends_on_iff]
  simp [RefersTo, nodes, Module.orderNode]

theorem namesakes_of_named {p : Plan} {i j : Nat} {identity : String} (first : LoadOrder.Named p.nodes i identity)
    (second : LoadOrder.Named p.nodes j identity) : p.Namesakes i j := by
  obtain ⟨_, foundI, rfl⟩ := first
  obtain ⟨_, foundJ, same⟩ := second
  rw [nodes, List.getElem?_map] at foundI foundJ
  obtain ⟨a, atI, rfl⟩ := Option.map_eq_some_iff.mp foundI
  obtain ⟨b, atJ, rfl⟩ := Option.map_eq_some_iff.mp foundJ
  exact ⟨a, atI, b, atJ, same.symm⟩

theorem namesakes_unique {p : Plan} (distinct : (p.modules.map (·.module.identity.fullName)).Nodup) {i j : Nat}
    (same : p.Namesakes i j) : i = j := by
  obtain ⟨a, atI, b, atJ, same⟩ := same
  have inside : i < (p.modules.map (·.module.identity.fullName)).length := by
    rw [List.length_map]
    exact (List.getElem?_eq_some_iff.mp atI).1
  apply (List.getElem?_inj inside distinct).mp
  rw [List.getElem?_map, List.getElem?_map, atI, atJ, Option.map_some, Option.map_some, same]

end Plan

theorem looks_order_eq {ε : Type} {bad : ε → Prop} {fs : FileSystem} (nodes : List OrderNode) :
    (orderNodes nodes : Task ε _).Looks fs (fun order => order = (LoadOrder.ofNodes nodes).order) bad := by
  unfold orderNodes
  dsimp only
  split
  · exact looks_then (looks_tell _) fun _ _ => looks_pure rfl
  · exact looks_pure rfl

theorem looks_plan_order {fs : FileSystem} (references targets : List String) (readSymbols : Bool) :
    (plan references targets readSymbols).Looks fs
      (fun planned => planned.order = (LoadOrder.ofNodes planned.nodes).order) Failure.Plain := by
  unfold plan
  apply looks_then (SearchPath.looks_add_all {} references)
  intro search _
  apply looks_then (looks_load_modules search readSymbols targets)
  intro modules _
  split
  · rename_i failure found
    exact looks_fail (duplicate_output_plain found)
  · exact looks_then (looks_order_eq _) fun order same => looks_pure same

theorem sublist_either_way {l : List Nat} {a b : Nat} (first : a ∈ l) (second : b ∈ l) (apart : a ≠ b) :
    [a, b].Sublist l ∨ [b, a].Sublist l := by
  obtain ⟨front, back, rfl⟩ := List.append_of_mem first
  rcases List.mem_append.mp second with before | behind
  · exact .inr ((List.singleton_sublist.mpr before).append (List.singleton_sublist.mpr List.mem_cons_self))
  · have later : b ∈ back := (List.mem_cons.mp behind).resolve_left (Ne.symm apart)
    exact .inl ((List.Sublist.cons_cons a (List.singleton_sublist.mpr later)).trans (List.sublist_append_right _ _))

theorem acyclic_of_descent {relation : Nat → Nat → Prop} (height : Nat → Nat)
    (descends : ∀ i j, relation i j → height j < height i) (i : Nat) : ¬ Relation.TransGen relation i i := by
  intro cycle
  have lower : ∀ j, Relation.TransGen relation i j → height j < height i := by
    intro j path
    induction path with
    | single step => exact descends _ _ step
    | tail _ step ih => exact (descends _ _ step).trans ih
  exact (lower i cycle).false

/-- Of several modules with one identity, one is enough. -/
theorem plan_precedence (fs : FileSystem) (references targets : List String) (readSymbols : Bool) {planned : Plan}
    (made : ((plan references targets readSymbols).run fs).result = .ok planned)
    (acyclic : ∀ i, ¬ Relation.TransGen planned.RefersTo i i) :
    planned.order.Perm (List.range planned.modules.length) ∧
      (∀ i j, planned.RefersTo i j → [j, i].Sublist planned.order ∨
        [i, j].Sublist planned.order ∧ ∃ k, k ≠ j ∧ planned.Namesakes k j ∧ [k, i].Sublist planned.order) ∧
      ((planned.modules.map (·.module.identity.fullName)).Nodup →
        ∀ i j, planned.RefersTo i j → [j, i].Sublist planned.order) := by
  have complete := ((looks_plan references targets readSymbols).done planned made).2.order
  have ordered := ((looks_plan_order references targets readSymbols).done planned made).2
  have edges : ∀ i j, planned.RefersTo i j → [j, i].Sublist planned.order ∨
      [i, j].Sublist planned.order ∧ ∃ k, k ≠ j ∧ planned.Namesakes k j ∧ [k, i].Sublist planned.order := by
    intro i j refers
    have apart : j ≠ i := by
      rintro rfl
      exact acyclic j (.single refers)
    have member : ∀ k < planned.modules.length, k ∈ planned.order :=
      fun k inside => complete.mem_iff.mpr (List.mem_range.mpr inside)
    obtain ⟨a, atI, b, atJ, _⟩ := id refers
    rcases sublist_either_way (member j (List.getElem?_eq_some_iff.mp atJ).1)
      (member i (List.getElem?_eq_some_iff.mp atI).1) apart with before | behind
    · exact .inl before
    · rw [Plan.refers_to_eq] at refers acyclic
      obtain ⟨identity, needs, named⟩ := refers
      obtain ⟨k, namesake, before⟩ := LoadOrder.acyclic_precedes acyclic needs
      rw [← ordered] at before
      by_cases same : k = j
      · exact .inl (same ▸ before)
      · exact .inr ⟨behind, k, same, Plan.namesakes_of_named namesake named, before⟩
  refine ⟨complete, edges, fun distinct i j refers => (edges i j refers).resolve_right ?_⟩
  rintro ⟨_, k, other, same, _⟩
  exact other (Plan.namesakes_unique distinct same)

-- App refers to a library that two files contain. It is placed behind the first of them, while the second still waits
-- for Base.
theorem plan_precedence_of_namesakes :
    let library (references : List Identity) : Module :=
      ⟨Module.magicNumber, 1, 0, ⟨"Lib", "1"⟩, references, [], [], none⟩
    let fs := ((((((((⟨[], []⟩ : FileSystem).write "App.wbc"
      (⟨Module.magicNumber, 1, 0, ⟨"App", "1"⟩, [⟨"Lib", "1"⟩], [], [], none⟩ : Module).encode).2).write "LibA.wbc"
      (library []).encode).2).write "LibB.wbc" (library [⟨"Base", "1"⟩]).encode).2).write "Base.wbc"
      (⟨Module.magicNumber, 1, 0, ⟨"Base", "1"⟩, [], [], [], none⟩ : Module).encode).2
    ∃ planned, ((plan [] ["App.wbc", "LibA.wbc", "LibB.wbc", "Base.wbc"] true).run fs).result = .ok planned ∧
      (∀ i, ¬ Relation.TransGen planned.RefersTo i i) ∧ planned.RefersTo 0 2 ∧ planned.order = [1, 3, 0, 2] ∧
      ¬ [2, 0].Sublist planned.order ∧ ∃ k, k ≠ 2 ∧ planned.Namesakes k 2 ∧ [k, 0].Sublist planned.order := by
  intro library fs
  let loaded (m : Module) (origin : Path) : LoadedModule := ⟨m, origin, none, m.references.map (⟨·, none⟩)⟩
  let planned : Plan := ⟨⟨[], []⟩, [loaded ⟨Module.magicNumber, 1, 0, ⟨"App", "1"⟩, [⟨"Lib", "1"⟩], [], [], none⟩ "App.wbc",
    loaded (library []) "LibA.wbc", loaded (library [⟨"Base", "1"⟩]) "LibB.wbc",
    loaded ⟨Module.magicNumber, 1, 0, ⟨"Base", "1"⟩, [], [], [], none⟩ "Base.wbc"], [1, 3, 0, 2]⟩
  have made : ((plan [] ["App.wbc", "LibA.wbc", "LibB.wbc", "Base.wbc"] true).run fs).result = .ok planned := by
    decide +kernel
  have refers : planned.RefersTo 0 2 := by decide +kernel
  have acyclic : ∀ i, ¬ Relation.TransGen planned.RefersTo i i := by
    refine acyclic_of_descent (fun i => [2, 0, 1, 0].getD i 0) fun i j refers => ?_
    obtain ⟨a, atI, b, atJ, _⟩ := id refers
    have lower : ∀ i < 4, ∀ j < 4, planned.RefersTo i j → [2, 0, 1, 0].getD j 0 < [2, 0, 1, 0].getD i 0 := by
      decide +kernel
    exact lower i (List.getElem?_eq_some_iff.mp atI).1 j (List.getElem?_eq_some_iff.mp atJ).1 refers
  have late : ¬ [2, 0].Sublist planned.order := by decide
  obtain ⟨_, edges, _⟩ := plan_precedence fs [] _ true made acyclic
  exact ⟨planned, made, acyclic, refers, rfl, late, ((edges 0 2 refers).resolve_left late).2⟩

end Batch

end Loom
