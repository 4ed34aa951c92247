import Loom.Batch
import Loom.Proofs.LoadOrder.Frontier

set_option autoImplicit false

namespace Loom.LoadOrder

variable {nodes : List OrderNode}

theorem resolvable_settled {order : List Nat} {placed : List String} {left : List Pending}
    (frontier : Frontier nodes order placed left) (stuck : ∀ p ∈ left, isReady placed p = false) {i : Nat}
    (resolvable : Resolvable nodes i) : i ∈ order := by
  induction resolvable with
  | intro i supplier inside named _ ih =>
      have listed : i ∈ order ++ left.map (·.index) :=
        frontier.complete.mem_iff.mpr (List.mem_range.mpr inside)
      rcases List.mem_append.mp listed with settled | unsettled
      · exact settled
      · obtain ⟨p, member, rfl⟩ := List.mem_map.mp unsettled
        have ready : isReady placed p = true := by
          refine (is_ready_iff placed p).mpr fun identity dependency => ?_
          have needs := (cut_needs (frontier.cut p member) identity).mp dependency
          exact (frontier.placedIff identity).mpr ⟨_, ih identity needs, named identity needs⟩
        rw [stuck p member] at ready
        cases ready

theorem settled_iff_resolvable {order : List Nat} {placed : List String} {left : List Pending}
    (frontier : Frontier nodes order placed left) (stuck : ∀ p ∈ left, isReady placed p = false) (i : Nat) :
    i ∈ order ↔ Resolvable nodes i :=
  ⟨settled_resolvable frontier.settled i, resolvable_settled frontier stuck⟩

theorem left_iff_unresolvable {order : List Nat} {placed : List String} {left : List Pending}
    (frontier : Frontier nodes order placed left) (stuck : ∀ p ∈ left, isReady placed p = false) (i : Nat) :
    i ∈ left.map (·.index) ↔ i < nodes.length ∧ ¬ Resolvable nodes i := by
  have listed : i ∈ order ++ left.map (·.index) ↔ i < nodes.length := by
    rw [frontier.complete.mem_iff, List.mem_range]
  have once : (order ++ left.map (·.index)).Nodup := frontier.complete.nodup_iff.mpr List.nodup_range
  rw [← settled_iff_resolvable frontier stuck, ← listed, List.mem_append]
  constructor
  · intro member
    exact ⟨.inr member, fun settled => (List.disjoint_of_nodup_append once) settled member⟩
  · intro member
    exact member.1.resolve_left member.2

theorem left_identities {order : List Nat} {placed : List String} {left : List Pending}
    (frontier : Frontier nodes order placed left) :
    left.map (·.node.identity) = (left.map (·.index)).filterMap fun i => nodes[i]?.map (·.identity) := by
  have cut := frontier.cut
  clear frontier
  induction left with
  | nil => rfl
  | cons p rest ih =>
      obtain ⟨node, found, same⟩ := Option.map_eq_some_iff.mp (cut p List.mem_cons_self)
      have named : nodes[p.index]?.map (·.identity) = some p.node.identity := by
        rw [found, ← same]
        rfl
      simp only [List.map_cons, List.filterMap_cons, named,
        ih fun q member => cut q (List.mem_cons_of_mem p member)]

theorem run_order_nodes {ε : Type} (nodes : List OrderNode) (fs : FileSystem) :
    (Batch.orderNodes nodes : Task ε (List Nat)).run fs = ⟨.ok (ofNodes nodes).order, fs,
      if (ofNodes nodes).unresolved = [] then [] else [.orderUnresolved (ofNodes nodes).unresolved]⟩ := by
  unfold Batch.orderNodes
  by_cases none : (ofNodes nodes).unresolved = []
  · simp only [none, ne_eq, not_true_eq_false, if_false, if_true]
    rfl
  · simp only [none, ne_eq, not_false_eq_true, if_true, if_false]
    rfl

/-- Nodes that cannot be placed keep their order at the end. The warning names them in that order. -/
theorem order_nodes_precedence {ε : Type} (nodes : List OrderNode) (fs : FileSystem) :
    ∃ placed left : List Nat,
      (Batch.orderNodes nodes : Task ε (List Nat)).run fs = ⟨.ok (placed ++ left), fs,
        if left = [] then []
        else [.orderUnresolved (left.filterMap fun i => nodes[i]?.map (·.identity))]⟩ ∧
      placed.Nodup ∧ (∀ i, i ∈ placed ↔ Resolvable nodes i) ∧
      left.Pairwise (· < ·) ∧ (∀ i, i ∈ left ↔ i < nodes.length ∧ ¬ Resolvable nodes i) ∧
      (∀ i identity, Resolvable nodes i → Needs nodes i identity →
        ∃ j, Named nodes j identity ∧ [j, i].Sublist (placed ++ left)) ∧
      ((nodes.map (·.identity)).Nodup →
        (∀ i < nodes.length, ¬ Resolvable nodes i ↔ ∃ j,
          Relation.ReflTransGen (DependsOn nodes) i j ∧ Relation.TransGen (DependsOn nodes) j j) ∧
        ((∀ i, ¬ Relation.TransGen (DependsOn nodes) i i) →
          ∀ i j, DependsOn nodes i j → [j, i].Sublist (placed ++ left))) := by
  obtain ⟨order, placed, left, result, frontier, stuck⟩ := frontier_of_nodes nodes
  have settled := settled_iff_resolvable frontier stuck
  have once : (order ++ left.map (·.index)).Nodup := frontier.complete.nodup_iff.mpr List.nodup_range
  have precedes : ∀ i identity, Resolvable nodes i → Needs nodes i identity →
      ∃ j, Named nodes j identity ∧ [j, i].Sublist (order ++ left.map (·.index)) := by
    intro i identity resolvable needs
    obtain ⟨j, named, before⟩ :=
      settled_precedes frontier.settled i ((settled i).mpr resolvable) identity needs
    exact ⟨j, named, before.trans (List.sublist_append_left order _)⟩
  refine ⟨order, left.map (·.index), ?_, once.of_append_left, settled, frontier.increasing,
    left_iff_unresolvable frontier stuck, precedes, fun distinct => ⟨?_, ?_⟩⟩
  · rw [run_order_nodes, result, ← left_identities frontier]
    simp only [List.map_eq_nil_iff]
  · exact unresolvable_iff_reaches_cycle distinct
  · intro acyclic i j depends
    obtain ⟨identity, needs, named⟩ := depends
    have inside : i < nodes.length := by
      obtain ⟨node, found, _⟩ := needs
      exact (List.getElem?_eq_some_iff.mp found).1
    have resolvable := resolvable_of_no_cycle i inside fun k _ => acyclic k
    -- With distinct identities the node found in front is the one asked for.
    obtain ⟨k, namedK, before⟩ := precedes i identity resolvable needs
    rwa [named_unique distinct named namedK]

theorem order_nodes_precedence_with_cycle :
    let nodes : List OrderNode := [⟨"X", ["Y"]⟩, ⟨"Base", []⟩, ⟨"Y", ["X"]⟩, ⟨"Top", ["Base"]⟩]
    (nodes.map (·.identity)).Nodup ∧ Resolvable nodes 3 ∧ Needs nodes 3 "Base" ∧
      ∃ order events, (Batch.orderNodes nodes : Task Failure (List Nat)).run ⟨[], []⟩ = ⟨.ok order, ⟨[], []⟩, events⟩ ∧
        (∃ j, Named nodes j "Base" ∧ [j, 3].Sublist order) ∧ ¬ Resolvable nodes 0 := by
  intro nodes
  have distinct : (nodes.map (·.identity)).Nodup := by decide
  have base : Resolvable nodes 1 := by
    refine (resolvable_iff 1).mpr ⟨by decide, fun identity needs => ?_⟩
    obtain ⟨node, found, member, _⟩ := needs
    cases found
    cases member
  have needs : Needs nodes 3 "Base" := ⟨_, rfl, by decide, by decide⟩
  have top : Resolvable nodes 3 := by
    refine (resolvable_iff 3).mpr ⟨by decide, fun identity needs => ?_⟩
    obtain ⟨node, found, member, _⟩ := needs
    cases found
    rw [List.mem_singleton.mp member]
    exact ⟨1, ⟨_, rfl, rfl⟩, base⟩
  have there : DependsOn nodes 0 2 := ⟨"Y", ⟨_, rfl, by decide, by decide⟩, ⟨_, rfl, rfl⟩⟩
  have back : DependsOn nodes 2 0 := ⟨"X", ⟨_, rfl, by decide, by decide⟩, ⟨_, rfl, rfl⟩⟩
  obtain ⟨placed, left, run, _, _, _, _, precedes, cycles⟩ :=
    @order_nodes_precedence Failure nodes ⟨[], []⟩
  refine ⟨distinct, top, needs, _, _, run, precedes 3 "Base" top needs, ?_⟩
  exact ((cycles distinct).1 0 (by decide)).mpr ⟨0, .refl, .head there (.single back)⟩

end Loom.LoadOrder
