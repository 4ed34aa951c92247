import Loom.Proofs.LoadOrder.Frontier

set_option autoImplicit false

/-! What any number of scans placed, one scan places in the same sequence when it comes upon the nodes in that
sequence. -/
namespace Loom.LoadOrder

theorem scan_append (placed : List String) (front back : List Pending) :
    scan placed (front ++ back) =
      ⟨(scan (scan placed front).placed back).placed,
        (scan placed front).order ++ (scan (scan placed front).placed back).order,
        (scan placed front).left ++ (scan (scan placed front).placed back).left⟩ := by
  induction front generalizing placed with
  | nil => rfl
  | cons p rest ih =>
      by_cases ready : isReady placed p = true
      · simp only [List.cons_append, scan, if_pos ready, ih]
      · simp only [List.cons_append, scan, if_neg ready, ih]

theorem scan_unready {placed : List String} {left : List Pending} (stuck : ∀ p ∈ left, isReady placed p = false) :
    scan placed left = ⟨placed, [], left⟩ := by
  induction left with
  | nil => rfl
  | cons p rest ih =>
      obtain ⟨unready, stuck⟩ := List.forall_mem_cons.mp stuck
      simp only [scan, unready, Bool.false_eq_true, if_false, ih stuck]

theorem settle_unready {placed : List String} {left : List Pending} (stuck : ∀ p ∈ left, isReady placed p = false) :
    settle placed left = ⟨left.map (·.index), left.map (·.node.identity)⟩ := by
  rw [settle, scan_unready stuck, if_neg (Nat.lt_irrefl _)]

-- The pending nodes of a chain are ready one after another, each by what was placed before and what stands in front
-- of it: one scan places them all.
def IsChain (placed : List String) (chain : List Pending) : Prop := (scan placed chain).left = []

theorem chain_order {placed : List String} {chain : List Pending} (inTurn : IsChain placed chain) :
    (scan placed chain).order = chain.map (·.index) := by
  induction chain generalizing placed with
  | nil => rfl
  | cons p rest ih =>
      by_cases ready : isReady placed p = true
      · simp only [IsChain, scan, if_pos ready] at inTurn ⊢
        rw [ih inTurn, List.map_cons]
      · simp only [IsChain, scan, if_neg ready] at inTurn
        cases inTurn

theorem scan_chain (placed : List String) (pending : List Pending) :
    ∃ chain, IsChain placed chain ∧ (scan placed chain).placed = (scan placed pending).placed ∧
      (scan placed pending).order = chain.map (·.index) ∧
      (chain ++ (scan placed pending).left).Perm pending := by
  induction pending generalizing placed with
  | nil => exact ⟨[], rfl, rfl, rfl, .refl _⟩
  | cons p rest ih =>
      by_cases ready : isReady placed p = true
      · obtain ⟨chain, inTurn, same, order, complete⟩ := ih (p.node.identity :: placed)
        refine ⟨p :: chain, ?_, ?_, ?_, ?_⟩
        · simpa only [IsChain, scan, if_pos ready] using inTurn
        · simpa only [scan, if_pos ready] using same
        · simp only [scan, if_pos ready, order, List.map_cons]
        · simp only [scan, if_pos ready]
          exact complete.cons p
      · obtain ⟨chain, inTurn, same, order, complete⟩ := ih placed
        refine ⟨chain, inTurn, ?_, ?_, ?_⟩
        · simpa only [scan, if_neg ready] using same
        · simpa only [scan, if_neg ready] using order
        · simp only [scan, if_neg ready]
          exact List.perm_middle.trans (complete.cons p)

theorem settle_chain (placed : List String) (pending : List Pending) :
    ∃ chain left, settle placed pending = ⟨(chain ++ left).map (·.index), left.map (·.node.identity)⟩ ∧
      (chain ++ left).Perm pending ∧ IsChain placed chain ∧
      ∀ p ∈ left, isReady (scan placed chain).placed p = false := by
  let Holds (order : List Nat) (last : List String) (left : List Pending) : Prop :=
    ∃ chain, IsChain placed chain ∧ (scan placed chain).placed = last ∧ order = chain.map (·.index) ∧
      (chain ++ left).Perm pending
  have keeps : ∀ order last left, Holds order last left →
      Holds (order ++ (scan last left).order) (scan last left).placed (scan last left).left := by
    intro order last left holds
    obtain ⟨chain, inTurn, same, ordered, complete⟩ := holds
    obtain ⟨next, inTurnNext, sameNext, orderedNext, completeNext⟩ := scan_chain last left
    refine ⟨chain ++ next, ?_, ?_, ?_, ?_⟩
    · rw [IsChain, scan_append, same, inTurn, inTurnNext, List.append_nil]
    · rw [scan_append, same, sameNext]
    · rw [ordered, orderedNext, List.map_append]
    · rw [List.append_assoc]
      exact (completeNext.append_left chain).trans complete
  have holds : Holds [] placed pending := ⟨[], rfl, rfl, rfl, .refl _⟩
  obtain ⟨more, last, left, result, ⟨chain, inTurn, same, ordered, complete⟩, stuck⟩ :=
    settle_rests Holds keeps holds
  rw [List.nil_append] at ordered
  exact ⟨chain, left, by rw [result, ordered, List.map_append], complete, inTurn, same ▸ stuck⟩

-- Conversely, a chain is settled by one scan, and the next finds nothing.
theorem settle_of_chain {placed : List String} {chain left : List Pending} (inTurn : IsChain placed chain)
    (stuck : ∀ p ∈ left, isReady (scan placed chain).placed p = false) :
    settle placed (chain ++ left) = ⟨(chain ++ left).map (·.index), left.map (·.node.identity)⟩ := by
  cases chain with
  | nil => exact settle_unready stuck
  | cons p rest =>
      have scanned : scan placed (p :: rest ++ left) =
          ⟨(scan placed (p :: rest)).placed, (p :: rest).map (·.index), left⟩ := by
        rw [scan_append, scan_unready stuck, chain_order inTurn, inTurn, List.append_nil, List.nil_append]
      have shorter : left.length < (p :: rest ++ left).length := by
        rw [List.cons_append, List.length_cons, List.length_append]
        omega
      rw [settle, scanned, if_pos shorter, settle_unready stuck, List.map_append]

structure InOrder (front chain left : List Pending) : Prop where
  free : ∀ p ∈ front, isFree p = true
  bound : ∀ p ∈ chain ++ left, isFree p = false
  inTurn : IsChain (front.map (·.node.identity)) chain
  stuck : ∀ p ∈ left, isReady (scan (front.map (·.node.identity)) chain).placed p = false

theorem in_order_of_nodes (nodes : List OrderNode) :
    ∃ front chain left, InOrder front chain left ∧ (front ++ (chain ++ left)).Perm (unplaced nodes) ∧
      ofNodes nodes = ⟨(front ++ (chain ++ left)).map (·.index), left.map (·.node.identity)⟩ := by
  obtain ⟨chain, left, result, complete, inTurn, stuck⟩ := settle_chain (start nodes).placed (start nodes).left
  refine ⟨(unplaced nodes).filter isFree, chain, left, ⟨?_, ?_, inTurn, stuck⟩, ?_, ?_⟩
  · exact fun p member => (List.mem_filter.mp member).2
  · intro p member
    have notFree := (List.mem_filter.mp (complete.mem_iff.mp member)).2
    rwa [Bool.not_eq_true'] at notFree
  · exact (complete.append_left _).trans (List.filter_append_perm isFree (unplaced nodes))
  · simp only [of_nodes_eq, result, List.map_append]
    rfl

theorem InOrder.of_nodes {nodes : List OrderNode} {front chain left : List Pending}
    (inOrder : InOrder front chain left) (whole : unplaced nodes = front ++ (chain ++ left)) :
    ofNodes nodes = ⟨List.range nodes.length, left.map (·.node.identity)⟩ := by
  have started : start nodes = ⟨front.map (·.node.identity), front.map (·.index), chain ++ left⟩ := by
    have noneBound : (chain ++ left).filter isFree = [] :=
      List.filter_eq_nil_iff.mpr fun p member => by simp [inOrder.bound p member]
    have allBound : (chain ++ left).filter (fun p => !isFree p) = chain ++ left :=
      List.filter_eq_self.mpr fun p member => by simp [inOrder.bound p member]
    have noneFree : front.filter (fun p => !isFree p) = [] :=
      List.filter_eq_nil_iff.mpr fun p member => by simp [inOrder.free p member]
    rw [start, whole, List.filter_append, List.filter_append front, noneBound, allBound, noneFree,
      List.filter_eq_self.mpr inOrder.free, List.append_nil, List.nil_append]
  rw [of_nodes_eq, started, settle_of_chain inOrder.inTurn inOrder.stuck, ← unplaced_index, whole]
  simp only [List.map_append]

theorem scan_same_nodes {placed : List String} {first second : List Pending}
    (same : first.map (·.node) = second.map (·.node)) :
    (scan placed first).placed = (scan placed second).placed ∧
      (scan placed first).left.map (·.node) = (scan placed second).left.map (·.node) := by
  -- Scans look at nodes only, not at their indices.
  induction first generalizing placed second with
  | nil =>
      rw [List.map_eq_nil_iff.mp same.symm]
      exact ⟨rfl, rfl⟩
  | cons p rest ih =>
      obtain ⟨q, rest', rfl, node, same⟩ := List.map_eq_cons_iff.mp same.symm
      have alike : isReady placed p = isReady placed q := by
        rw [isReady, isReady, show q.node = p.node from node]
      by_cases ready : isReady placed p = true
      · obtain ⟨placeds, lefts⟩ := @ih (p.node.identity :: placed) rest' same.symm
        have ready' := alike ▸ ready
        simp only [scan, if_pos ready, if_pos ready', node, placeds, lefts, and_self]
      · obtain ⟨placeds, lefts⟩ := @ih placed rest' same.symm
        have ready' := alike ▸ ready
        simp only [scan, if_neg ready, if_neg ready', List.map_cons, node, placeds, lefts, and_self]

theorem identities_of_same_nodes {first second : List Pending} (same : first.map (·.node) = second.map (·.node)) :
    first.map (·.node.identity) = second.map (·.node.identity) := by
  simpa only [List.map_map, Function.comp_def] using congrArg (List.map (·.identity)) same

theorem node_of_same_nodes {first second : List Pending} (same : first.map (·.node) = second.map (·.node)) :
    ∀ p ∈ first, ∃ q ∈ second, q.node = p.node :=
  fun _ member => List.mem_map.mp (same ▸ List.mem_map_of_mem member)

theorem InOrder.of_same_nodes {front chain left front' chain' left' : List Pending}
    (inOrder : InOrder front chain left) (fronts : front'.map (·.node) = front.map (·.node))
    (chains : chain'.map (·.node) = chain.map (·.node)) (lefts : left'.map (·.node) = left.map (·.node)) :
    InOrder front' chain' left' := by
  have placeds := identities_of_same_nodes fronts
  obtain ⟨chainPlaceds, chainLefts⟩ := @scan_same_nodes (front.map (·.node.identity)) chain' chain chains
  refine ⟨fun p member => ?_, fun p member => ?_, ?_, fun p member => ?_⟩
  · obtain ⟨q, inside, node⟩ := node_of_same_nodes fronts p member
    have free := inOrder.free q inside
    rwa [isFree, node] at free
  · have both : (chain' ++ left').map (·.node) = (chain ++ left).map (·.node) := by
      rw [List.map_append, List.map_append, chains, lefts]
    obtain ⟨q, inside, node⟩ := node_of_same_nodes both p member
    have bound := inOrder.bound q inside
    rwa [isFree, node] at bound
  · rw [inOrder.inTurn] at chainLefts
    rw [placeds]
    exact List.map_eq_nil_iff.mp chainLefts
  · obtain ⟨q, inside, node⟩ := node_of_same_nodes lefts p member
    have stuck := inOrder.stuck q inside
    rwa [isReady, node, ← chainPlaceds, ← placeds] at stuck

def arranged (nodes : List OrderNode) : List OrderNode := (ofNodes nodes).order.filterMap (nodes[·]?)

theorem arranged_perm (nodes : List OrderNode) : (arranged nodes).Perm nodes := taken_perm (order_perm nodes)

theorem cut_node_perm {nodes others : List OrderNode} (perm : others.Perm nodes) : cutNode others = cutNode nodes := by
  funext node
  have same : ∀ identity ∈ node.dependencies,
      (others.map (·.identity)).contains identity = (nodes.map (·.identity)).contains identity :=
    fun identity _ => (perm.map _).contains_eq
  rw [cutNode, cutNode, List.filter_congr same]

/-- The warning is the same too: the nodes that it names are still left, in the same sequence. -/
theorem order_of_arranged (nodes : List OrderNode) :
    (arranged nodes).Perm nodes ∧ ofNodes (arranged nodes) = ⟨List.range nodes.length, (ofNodes nodes).unresolved⟩ := by
  obtain ⟨front, chain, left, inOrder, complete, result⟩ := in_order_of_nodes nodes
  have perm := arranged_perm nodes
  have cut : ∀ p ∈ front ++ (chain ++ left), nodes[p.index]?.map (cutNode nodes) = some p.node :=
    fun p member => unplaced_cut p (complete.mem_iff.mp member)
  have listed : (unplaced (arranged nodes)).map (·.node) = (front ++ (chain ++ left)).map (·.node) := by
    rw [unplaced_node, cut_node_perm perm, arranged, result, List.map_filterMap, List.filterMap_map]
    exact List.filterMap_eq_map_iff_forall_eq_some.mpr cut
  rw [List.map_append, List.map_append] at listed
  obtain ⟨front', back', whole, fronts, backs⟩ := List.map_eq_append_iff.mp listed
  obtain ⟨chain', left', rfl, chains, lefts⟩ := List.map_eq_append_iff.mp backs
  refine ⟨perm, ?_⟩
  rw [(inOrder.of_same_nodes fronts chains lefts).of_nodes whole, perm.length_eq, result,
    identities_of_same_nodes lefts]

end Loom.LoadOrder
