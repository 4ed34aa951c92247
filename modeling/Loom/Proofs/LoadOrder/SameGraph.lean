import Loom.Proofs.LoadOrder.Frontier

set_option autoImplicit false

/-! Two batches that share identities and references in the same places are scanned in step, whatever their identities
are spelt like. -/
namespace Loom

def OrderNode.rename (name : String → String) (node : OrderNode) : OrderNode :=
  ⟨name node.identity, node.dependencies.map name⟩

namespace LoadOrder

variable {nodes others : List OrderNode}

structure SameGraph (nodes others : List OrderNode) : Prop where
  length : others.length = nodes.length
  namesakes : ∀ i j, Namesakes others i j ↔ Namesakes nodes i j
  references : ∀ i j, DependsOn others i j ↔ DependsOn nodes i j

theorem SameGraph.is_ready_eq (same : SameGraph nodes others) {order : List Nat} {placed placed' : List String}
    {left left' : List Pending} {p q : Pending} (frontier : Frontier nodes order placed left)
    (frontier' : Frontier others order placed' left') (member : p ∈ left) (member' : q ∈ left')
    (index : p.index = q.index) : isReady placed p = isReady placed' q := by
  rw [Bool.eq_iff_iff, is_ready_iff_supplied frontier member, is_ready_iff_supplied frontier' member', index]
  simp only [same.references, same.namesakes]

theorem SameGraph.scan_eq (same : SameGraph nodes others) {order : List Nat} {placed placed' : List String}
    {kept kept' pending pending' : List Pending} (frontier : Frontier nodes order placed (kept ++ pending))
    (frontier' : Frontier others order placed' (kept' ++ pending'))
    (indices : pending.map (·.index) = pending'.map (·.index)) :
    (scan placed pending).order = (scan placed' pending').order ∧
      (scan placed pending).left.map (·.index) = (scan placed' pending').left.map (·.index) := by
  -- The first pending nodes of both batches are placed, or both are passed over.
  induction pending generalizing order placed placed' kept kept' pending' with
  | nil =>
      rw [List.map_eq_nil_iff.mp indices.symm]
      exact ⟨rfl, rfl⟩
  | cons p rest ih =>
      obtain ⟨q, rest', rfl, index, indices⟩ := List.map_eq_cons_iff.mp indices.symm
      have alike := same.is_ready_eq frontier frontier' (List.mem_append_right kept List.mem_cons_self)
        (List.mem_append_right kept' List.mem_cons_self) index.symm
      by_cases ready : isReady placed p = true
      · have ready' := alike ▸ ready
        have next' := frontier_step frontier' ready'
        rw [show q.index = p.index from index] at next'
        obtain ⟨orders, lefts⟩ := ih (frontier_step frontier ready) next' indices.symm
        simp only [scan, if_pos ready, if_pos ready', index, orders, lefts, and_self]
      · have ready' := alike ▸ ready
        rw [List.append_cons] at frontier frontier'
        obtain ⟨orders, lefts⟩ := ih frontier frontier' indices.symm
        simp only [scan, if_neg ready, if_neg ready', orders, List.map_cons, index, lefts, and_self]

theorem SameGraph.scan_all_eq (same : SameGraph nodes others) {order : List Nat} {placed placed' : List String}
    {left left' : List Pending} (frontier : Frontier nodes order placed left)
    (frontier' : Frontier others order placed' left') (indices : left.map (·.index) = left'.map (·.index)) :
    (scan placed left).order = (scan placed' left').order ∧
      (scan placed left).left.map (·.index) = (scan placed' left').left.map (·.index) := by
  rw [← List.nil_append left] at frontier
  rw [← List.nil_append left'] at frontier'
  exact same.scan_eq frontier frontier' indices

theorem length_of_indices {first second : List Pending}
    (indices : first.map (·.index) = second.map (·.index)) : first.length = second.length := by
  simpa only [List.length_map] using congrArg List.length indices

theorem SameGraph.settle_eq (same : SameGraph nodes others) {order : List Nat} {placed placed' : List String}
    {pending pending' : List Pending} (frontier : Frontier nodes order placed pending)
    (frontier' : Frontier others order placed' pending')
    (indices : pending.map (·.index) = pending'.map (·.index)) :
    (settle placed pending).order = (settle placed' pending').order := by
  induction placed, pending using settle.induct generalizing order placed' pending' with
  | case1 placed pending shorter ih =>
      obtain ⟨orders, lefts⟩ := same.scan_all_eq frontier frontier' indices
      have next' := frontier_scan_all frontier'
      rw [← orders] at next'
      have rest := ih (frontier_scan_all frontier) next' lefts
      rw [settle_order placed, if_pos shorter, settle_order placed', if_pos, orders, rest]
      rwa [← length_of_indices lefts, ← length_of_indices indices]
  | case2 placed pending noShorter =>
      obtain ⟨_, lefts⟩ := same.scan_all_eq frontier frontier' indices
      rw [settle_order placed, if_neg noShorter, settle_order placed', if_neg, indices]
      rwa [← length_of_indices lefts, ← length_of_indices indices]

theorem SameGraph.dependencies_eq (same : SameGraph nodes others) (i : Nat) :
    dependencies others i = dependencies nodes i := by
  ext j
  rw [mem_dependencies, mem_dependencies, same.references]

theorem SameGraph.order_eq (same : SameGraph nodes others) : (ofNodes others).order = (ofNodes nodes).order := by
  have orders : (start others).order = (start nodes).order := by
    rw [start_order, start_order, same.length]
    simp only [same.dependencies_eq]
  have lefts : (start nodes).left.map (·.index) = (start others).left.map (·.index) := by
    rw [start_left, start_left, same.length]
    simp only [same.dependencies_eq]
  have frontier := frontier_start others
  rw [orders] at frontier
  have settled := same.settle_eq (frontier_start nodes) frontier lefts
  simp only [of_nodes_eq, orders, settled]

def redepend (nodes : List OrderNode) (dependencies : Nat → List String) : List OrderNode :=
  nodes.mapIdx fun i node => { node with dependencies := dependencies i }

theorem same_graph_rename {name : String → String} (injective : Function.Injective name) (nodes : List OrderNode) :
    SameGraph nodes (nodes.map (OrderNode.rename name)) := by
  refine ⟨List.length_map _, fun i j => ?_, fun i j => ?_⟩
  · simp [namesakes_iff, OrderNode.rename, injective.eq_iff]
  · simp [depends_on_iff, OrderNode.rename, injective.eq_iff]

theorem same_graph_redepend {dependencies : Nat → List String}
    (agree : ∀ i a b, nodes[i]? = some a → b ∈ nodes → (b.identity ∈ dependencies i ↔ b.identity ∈ a.dependencies)) :
    SameGraph nodes (redepend nodes dependencies) := by
  refine ⟨List.length_mapIdx, fun i j => ?_, fun i j => ?_⟩
  · simp [namesakes_iff, redepend]
  · simp only [redepend, depends_on_iff, List.getElem?_mapIdx, Option.mem_def, Option.map_eq_some_iff,
      exists_exists_and_eq_and, exists_and_right]
    constructor
    · intro refers
      obtain ⟨⟨a, foundA⟩, b, foundB, member⟩ := refers
      exact ⟨a, foundA, b, foundB, (agree i a b foundA (List.mem_of_getElem? foundB)).mp member⟩
    · intro refers
      obtain ⟨a, foundA, b, foundB, member⟩ := refers
      exact ⟨⟨a, foundA⟩, b, foundB, (agree i a b foundA (List.mem_of_getElem? foundB)).mpr member⟩

/-- Identities may be renamed, and references reordered, repeated, added or dropped outside the batch. -/
theorem order_by_references_alone (nodes : List OrderNode) :
    (∀ others, SameGraph nodes others → (ofNodes others).order = (ofNodes nodes).order) ∧
    (∀ name : String → String, Function.Injective name →
      (ofNodes (nodes.map (OrderNode.rename name))).order = (ofNodes nodes).order) ∧
    (∀ dependencies : Nat → List String,
      (∀ i a b, nodes[i]? = some a → b ∈ nodes → (b.identity ∈ dependencies i ↔ b.identity ∈ a.dependencies)) →
      (ofNodes (redepend nodes dependencies)).order = (ofNodes nodes).order) :=
  ⟨fun _ same => same.order_eq, fun _ injective => (same_graph_rename injective nodes).order_eq,
    fun _ agree => (same_graph_redepend agree).order_eq⟩

theorem order_of_game_core_and_tools :
    let nodes : List OrderNode := [⟨"Game", ["Core"]⟩, ⟨"Core", ["Tools"]⟩, ⟨"Tools", []⟩]
    let others : List OrderNode := [⟨"A", ["B", "D"]⟩, ⟨"B", ["C", "C"]⟩, ⟨"C", ["D"]⟩]
    let dependencies (i : Nat) : List String := ["System"] ++ [["Core", "Core"], ["Tools"]].getD i []
    SameGraph nodes others ∧ (ofNodes others).order = [2, 1, 0] ∧
      (ofNodes (nodes.map (OrderNode.rename ("Old." ++ ·)))).order = [2, 1, 0] ∧
      (ofNodes (redepend nodes dependencies)).order = [2, 1, 0] := by
  intro nodes others dependencies
  have order : (ofNodes nodes).order = [2, 1, 0] := by decide +kernel
  have same : SameGraph nodes others := by
    refine ⟨rfl, fun i j => ?_, fun i j => ?_⟩
    · rcases i with _ | _ | _ | i <;> rcases j with _ | _ | _ | j <;> simp [namesakes_iff, nodes, others]
    · rcases i with _ | _ | _ | i <;> rcases j with _ | _ | _ | j <;> simp [depends_on_iff, nodes, others]
  obtain ⟨bySame, byName, byDependencies⟩ := order_by_references_alone nodes
  refine ⟨same, (bySame others same).trans order, (byName _ fun a b both => ?_).trans order,
    (byDependencies dependencies ?_).trans order⟩
  · simpa using both
  · intro i a b found member
    rcases i with _ | _ | _ | i <;> simp [nodes] at found member <;> subst found <;>
      rcases member with rfl | rfl | rfl <;> decide

end LoadOrder

end Loom
