import Loom.Proofs.LoadOrder.Resolvable
import Mathlib.Data.List.Induction

set_option autoImplicit false

namespace Loom.LoadOrder

variable {nodes : List OrderNode}

inductive Settled (nodes : List OrderNode) : List Nat → Prop
  | nil : Settled nodes []
  | snoc (order : List Nat) (i : Nat) (settled : Settled nodes order) (inside : i < nodes.length)
      (supplied : ∀ identity, Needs nodes i identity → ∃ j ∈ order, Named nodes j identity) :
      Settled nodes (order ++ [i])

theorem settled_resolvable {order : List Nat} (settled : Settled nodes order) :
    ∀ i ∈ order, Resolvable nodes i := by
  induction settled with
  | nil => simp
  | snoc order i _ inside supplied ih =>
      intro k member
      rcases List.mem_append.mp member with earlier | last
      · exact ih k earlier
      · rw [List.mem_singleton.mp last]
        refine (resolvable_iff i).mpr ⟨inside, fun identity needs => ?_⟩
        obtain ⟨j, placed, named⟩ := supplied identity needs
        exact ⟨j, named, ih j placed⟩

theorem settled_precedes {order : List Nat} (settled : Settled nodes order) :
    ∀ i ∈ order, ∀ identity, Needs nodes i identity → ∃ j, Named nodes j identity ∧ [j, i].Sublist order := by
  induction settled with
  | nil => simp
  | snoc order i _ _ supplied ih =>
      intro k member identity needs
      rcases List.mem_append.mp member with earlier | last
      · obtain ⟨j, named, before⟩ := ih k earlier identity needs
        exact ⟨j, named, before.trans (List.sublist_append_left order [i])⟩
      · rw [List.mem_singleton.mp last] at needs ⊢
        obtain ⟨j, placed, named⟩ := supplied identity needs
        exact ⟨j, named, (List.singleton_sublist.mpr placed).append (List.Sublist.refl [i])⟩

theorem settled_append_free {order free : List Nat} (settled : Settled nodes order)
    (inside : ∀ i ∈ free, i < nodes.length) (needless : ∀ i ∈ free, ∀ identity, ¬ Needs nodes i identity) :
    Settled nodes (order ++ free) := by
  induction free generalizing order with
  | nil => rwa [List.append_nil]
  | cons i rest ih =>
      rw [List.append_cons]
      apply ih
      · exact .snoc order i settled (inside i List.mem_cons_self)
          fun identity needs => absurd needs (needless i List.mem_cons_self identity)
      · exact fun k member => inside k (List.mem_cons_of_mem i member)
      · exact fun k member => needless k (List.mem_cons_of_mem i member)

def cutNode (nodes : List OrderNode) (node : OrderNode) : OrderNode :=
  ⟨node.identity, node.dependencies.filter (nodes.map (·.identity)).contains⟩

structure Frontier (nodes : List OrderNode) (order : List Nat) (placed : List String)
    (left : List Pending) : Prop where
  cut : ∀ p ∈ left, nodes[p.index]?.map (cutNode nodes) = some p.node
  complete : (order ++ left.map (·.index)).Perm (List.range nodes.length)
  increasing : (left.map (·.index)).Pairwise (· < ·)
  placedIff : ∀ identity, identity ∈ placed ↔ ∃ i ∈ order, Named nodes i identity
  settled : Settled nodes order

theorem cut_needs {p : Pending} (cut : nodes[p.index]?.map (cutNode nodes) = some p.node) (identity : String) :
    identity ∈ p.node.dependencies ↔ Needs nodes p.index identity := by
  obtain ⟨node, found, same⟩ := Option.map_eq_some_iff.mp cut
  rw [← same]
  simp [Needs, cutNode, found]

theorem cut_named {p : Pending} (cut : nodes[p.index]?.map (cutNode nodes) = some p.node) (identity : String) :
    Named nodes p.index identity ↔ p.node.identity = identity := by
  obtain ⟨node, found, same⟩ := Option.map_eq_some_iff.mp cut
  rw [← same]
  simp [Named, cutNode, found]

theorem is_ready_iff (placed : List String) (p : Pending) :
    isReady placed p = true ↔ ∀ identity ∈ p.node.dependencies, identity ∈ placed := by
  simp [isReady]

-- A node is ready when each node that it refers to has a namesake in the order.
theorem is_ready_iff_supplied {order : List Nat} {placed : List String} {left : List Pending} {p : Pending}
    (frontier : Frontier nodes order placed left) (member : p ∈ left) :
    isReady placed p = true ↔ ∀ j, DependsOn nodes p.index j → ∃ k ∈ order, Namesakes nodes j k := by
  rw [is_ready_iff]
  constructor
  · intro ready j depends
    obtain ⟨identity, needs, named⟩ := depends
    have dependency := (cut_needs (frontier.cut p member) identity).mpr needs
    obtain ⟨k, placed, namedK⟩ := (frontier.placedIff identity).mp (ready identity dependency)
    exact ⟨k, placed, identity, named, namedK⟩
  · intro supplied identity dependency
    have needs := (cut_needs (frontier.cut p member) identity).mp dependency
    obtain ⟨j, named⟩ := needs_named needs
    obtain ⟨k, placed, other, namedJ, namedK⟩ := supplied j ⟨identity, needs, named⟩
    rw [identity_unique namedJ named] at namedK
    exact (frontier.placedIff identity).mpr ⟨k, placed, namedK⟩

theorem frontier_step {order : List Nat} {placed : List String} {kept rest : List Pending} {p : Pending}
    (frontier : Frontier nodes order placed (kept ++ p :: rest)) (ready : isReady placed p = true) :
    Frontier nodes (order ++ [p.index]) (p.node.identity :: placed) (kept ++ rest) := by
  have cut := frontier.cut p (List.mem_append_right kept List.mem_cons_self)
  have shrinks : (kept ++ rest).Sublist (kept ++ p :: rest) :=
    (List.Sublist.refl kept).append (List.sublist_cons_self p rest)
  refine ⟨fun q member => frontier.cut q (shrinks.subset member), ?_, ?_, ?_, ?_⟩
  · refine List.Perm.trans ?_ frontier.complete
    rw [List.append_assoc, List.singleton_append, List.map_append, List.map_append, List.map_cons]
    exact (List.perm_middle.symm).append_left order
  · exact frontier.increasing.sublist (shrinks.map _)
  · intro identity
    rw [List.mem_cons, frontier.placedIff, eq_comm, ← cut_named cut]
    constructor
    · intro named
      rcases named with here | earlier
      · exact ⟨p.index, by simp, here⟩
      · obtain ⟨i, member, named⟩ := earlier
        exact ⟨i, List.mem_append_left _ member, named⟩
    · intro named
      obtain ⟨i, member, named⟩ := named
      rcases List.mem_append.mp member with earlier | last
      · exact .inr ⟨i, earlier, named⟩
      · rw [List.mem_singleton.mp last] at named
        exact .inl named
  · obtain ⟨node, found, _⟩ := Option.map_eq_some_iff.mp cut
    refine .snoc order p.index frontier.settled (List.getElem?_eq_some_iff.mp found).1 fun identity needs => ?_
    have member := (is_ready_iff placed p).mp ready identity ((cut_needs cut identity).mpr needs)
    exact (frontier.placedIff identity).mp member

theorem frontier_scan {order : List Nat} {placed : List String} {kept pending : List Pending}
    (frontier : Frontier nodes order placed (kept ++ pending)) :
    Frontier nodes (order ++ (scan placed pending).order) (scan placed pending).placed
      (kept ++ (scan placed pending).left) := by
  induction pending generalizing order placed kept with
  | nil => simpa [scan] using frontier
  | cons p rest ih =>
      by_cases ready : isReady placed p = true
      · have next := ih (frontier_step frontier ready)
        simpa only [scan, if_pos ready, List.append_assoc, List.singleton_append] using next
      · have kept' : Frontier nodes order placed ((kept ++ [p]) ++ rest) := by
          simpa only [List.append_assoc, List.singleton_append] using frontier
        have next := ih kept'
        simpa only [scan, if_neg ready, List.append_assoc, List.singleton_append] using next

theorem frontier_scan_all {order : List Nat} {placed : List String} {left : List Pending}
    (frontier : Frontier nodes order placed left) :
    Frontier nodes (order ++ (scan placed left).order) (scan placed left).placed (scan placed left).left := by
  rw [← List.nil_append left] at frontier
  exact frontier_scan frontier

theorem scan_stuck (placed : List String) (pending : List Pending)
    (stuck : ¬ (scan placed pending).left.length < pending.length) :
    ∀ p ∈ pending, isReady placed p = false := by
  induction pending with
  | nil => simp
  | cons p rest ih =>
      by_cases ready : isReady placed p = true
      · have bound := length_left_le (p.node.identity :: placed) rest
        simp only [scan, if_pos ready, List.length_cons] at stuck
        omega
      · simp only [scan, if_neg ready, List.length_cons] at stuck
        exact List.forall_mem_cons.mpr ⟨by simpa using ready, ih (by omega)⟩

theorem settle_order (placed : List String) (pending : List Pending) : (settle placed pending).order =
    if (scan placed pending).left.length < pending.length then
      (scan placed pending).order ++ (settle (scan placed pending).placed (scan placed pending).left).order
    else pending.map (·.index) := by
  rw [settle]
  split <;> rfl

-- Where the scans come to rest. What each scan keeps holds there of the order and of what is left, and nothing of
-- what is left is ready.
theorem settle_rests (Holds : List Nat → List String → List Pending → Prop)
    (keeps : ∀ order placed left, Holds order placed left →
      Holds (order ++ (scan placed left).order) (scan placed left).placed (scan placed left).left)
    {order : List Nat} {placed : List String} {pending : List Pending} (holds : Holds order placed pending) :
    ∃ more last left, settle placed pending = ⟨more ++ left.map (·.index), left.map (·.node.identity)⟩ ∧
      Holds (order ++ more) last left ∧ ∀ p ∈ left, isReady last p = false := by
  induction placed, pending using settle.induct generalizing order with
  | case1 placed pending shorter ih =>
      obtain ⟨more, last, left, result, rest, stuck⟩ := ih (keeps order placed pending holds)
      refine ⟨(scan placed pending).order ++ more, last, left, ?_, ?_, stuck⟩
      · rw [settle, if_pos shorter, result, List.append_assoc]
      · rwa [← List.append_assoc]
  | case2 placed pending noShorter =>
      refine ⟨[], placed, pending, ?_, ?_, scan_stuck placed pending noShorter⟩
      · rw [settle, if_neg noShorter, List.nil_append]
      · rwa [List.append_nil]

theorem pending_from_index (batch : List String) (start : Nat) (nodes : List OrderNode) :
    (pendingFrom batch start nodes).map (·.index) = List.range' start nodes.length := by
  induction nodes generalizing start with
  | nil => rfl
  | cons node rest ih => rw [pendingFrom, List.map_cons, ih, List.length_cons, List.range'_succ]

theorem pending_from_cut (batch : List String) (start : Nat) (nodes : List OrderNode) :
    ∀ p ∈ pendingFrom batch start nodes, ∃ k node, nodes[k]? = some node ∧
      p = ⟨start + k, ⟨node.identity, node.dependencies.filter batch.contains⟩⟩ := by
  induction nodes generalizing start with
  | nil => simp [pendingFrom]
  | cons node rest ih =>
      intro p member
      rcases List.mem_cons.mp member with first | later
      · exact ⟨0, node, rfl, first⟩
      · obtain ⟨k, found, access, same⟩ := ih (start + 1) p later
        exact ⟨k + 1, found, access, by rw [same, Nat.add_right_comm, Nat.add_assoc]⟩

theorem pending_from_node (batch : List String) (start : Nat) (nodes : List OrderNode) :
    (pendingFrom batch start nodes).map (·.node) =
      nodes.map fun node => ⟨node.identity, node.dependencies.filter batch.contains⟩ := by
  induction nodes generalizing start with
  | nil => rfl
  | cons node rest ih => rw [pendingFrom, List.map_cons, ih, List.map_cons]

def unplaced (nodes : List OrderNode) : List Pending := pendingFrom (nodes.map (·.identity)) 0 nodes

theorem unplaced_index (nodes : List OrderNode) : (unplaced nodes).map (·.index) = List.range nodes.length := by
  rw [unplaced, pending_from_index, List.range_eq_range']

theorem unplaced_node (nodes : List OrderNode) : (unplaced nodes).map (·.node) = nodes.map (cutNode nodes) :=
  pending_from_node _ 0 nodes

theorem unplaced_cut : ∀ p ∈ unplaced nodes, nodes[p.index]?.map (cutNode nodes) = some p.node := by
  intro p member
  obtain ⟨k, node, found, same⟩ := pending_from_cut _ 0 nodes p member
  rw [same, Nat.zero_add, found]
  rfl

def start (nodes : List OrderNode) : Scan :=
  let free := (unplaced nodes).filter isFree
  ⟨free.map (·.node.identity), free.map (·.index), (unplaced nodes).filter fun p => !isFree p⟩

theorem of_nodes_eq (nodes : List OrderNode) : ofNodes nodes =
    ⟨(start nodes).order ++ (settle (start nodes).placed (start nodes).left).order,
      (settle (start nodes).placed (start nodes).left).unresolved⟩ := rfl

theorem is_free_iff {p : Pending} (cut : nodes[p.index]?.map (cutNode nodes) = some p.node) :
    isFree p = true ↔ dependencies nodes p.index = ∅ := by
  rw [isFree, List.isEmpty_iff, List.eq_nil_iff_forall_not_mem, dependencies_eq_empty_iff]
  exact forall_congr' fun identity => not_congr (cut_needs cut identity)

theorem start_order (nodes : List OrderNode) :
    (start nodes).order = (List.range nodes.length).filter (dependencies nodes · = ∅) := by
  have same : ∀ p ∈ unplaced nodes, isFree p = decide (dependencies nodes p.index = ∅) := by
    intro p member
    rw [Bool.eq_iff_iff, is_free_iff (unplaced_cut p member), decide_eq_true_iff]
  rw [start, List.filter_congr same, ← unplaced_index, List.filter_map]
  rfl

theorem start_left (nodes : List OrderNode) :
    (start nodes).left.map (·.index) = (List.range nodes.length).filter (dependencies nodes · ≠ ∅) := by
  have same : ∀ p ∈ unplaced nodes, (!isFree p) = decide (dependencies nodes p.index ≠ ∅) := by
    intro p member
    rw [Bool.eq_iff_iff, Bool.not_eq_true', ← Bool.not_eq_true, is_free_iff (unplaced_cut p member),
      decide_eq_true_iff]
  rw [start, List.filter_congr same, ← unplaced_index, List.filter_map]
  rfl

theorem frontier_start (nodes : List OrderNode) :
    Frontier nodes (start nodes).order (start nodes).placed (start nodes).left := by
  have free : ∀ p ∈ (unplaced nodes).filter isFree, nodes[p.index]?.map (cutNode nodes) = some p.node ∧
      isFree p = true := by
    intro p member
    obtain ⟨inside, isFree⟩ := List.mem_filter.mp member
    exact ⟨unplaced_cut p inside, isFree⟩
  refine ⟨fun p member => unplaced_cut p (List.mem_filter.mp member).1, ?_, ?_, ?_, ?_⟩
  · rw [start, ← List.map_append, ← unplaced_index]
    exact (List.filter_append_perm isFree (unplaced nodes)).map _
  · have all : ((unplaced nodes).map (·.index)).Pairwise (· < ·) := by
      rw [unplaced_index]
      exact List.pairwise_lt_range
    exact all.sublist (List.filter_sublist.map _)
  · intro identity
    constructor
    · intro member
      obtain ⟨p, inside, same⟩ := List.mem_map.mp member
      exact ⟨p.index, List.mem_map_of_mem inside, (cut_named (free p inside).1 identity).mpr same⟩
    · intro named
      obtain ⟨i, member, named⟩ := named
      obtain ⟨p, inside, rfl⟩ := List.mem_map.mp member
      exact List.mem_map.mpr ⟨p, inside, (cut_named (free p inside).1 identity).mp named⟩
  · rw [← List.nil_append (start nodes).order]
    apply settled_append_free .nil
    · intro i member
      obtain ⟨p, inside, rfl⟩ := List.mem_map.mp member
      obtain ⟨node, found, _⟩ := Option.map_eq_some_iff.mp (free p inside).1
      exact (List.getElem?_eq_some_iff.mp found).1
    · intro i member
      obtain ⟨p, inside, rfl⟩ := List.mem_map.mp member
      exact dependencies_eq_empty_iff.mp ((is_free_iff (free p inside).1).mp (free p inside).2)

theorem of_nodes_rests (Holds : List Nat → List String → List Pending → Prop)
    (keeps : ∀ order placed left, Holds order placed left →
      Holds (order ++ (scan placed left).order) (scan placed left).placed (scan placed left).left)
    (holds : Holds (start nodes).order (start nodes).placed (start nodes).left) :
    ∃ order placed left, ofNodes nodes = ⟨order ++ left.map (·.index), left.map (·.node.identity)⟩ ∧
      Holds order placed left ∧ ∀ p ∈ left, isReady placed p = false := by
  obtain ⟨more, placed, left, result, rest, stuck⟩ := settle_rests Holds keeps holds
  refine ⟨(start nodes).order ++ more, placed, left, ?_, rest, stuck⟩
  rw [of_nodes_eq, result, List.append_assoc]

theorem frontier_of_nodes (nodes : List OrderNode) :
    ∃ order placed left, ofNodes nodes = ⟨order ++ left.map (·.index), left.map (·.node.identity)⟩ ∧
      Frontier nodes order placed left ∧ ∀ p ∈ left, isReady placed p = false :=
  of_nodes_rests (Frontier nodes) (fun _ _ _ frontier => frontier_scan_all frontier) (frontier_start nodes)

theorem order_perm (nodes : List OrderNode) : (ofNodes nodes).order.Perm (List.range nodes.length) := by
  obtain ⟨order, placed, left, result, frontier, _⟩ := frontier_of_nodes nodes
  rw [result]
  exact frontier.complete

theorem filter_map_range_get {α : Type} (l : List α) : (List.range l.length).filterMap (l[·]?) = l := by
  induction l using List.reverseRecOn with
  | nil => rfl
  | append_singleton l a ih =>
      have same : ∀ i ∈ List.range l.length, (l ++ [a])[i]? = l[i]? :=
        fun i member => List.getElem?_append_left (List.mem_range.mp member)
      rw [List.length_append, List.length_singleton, List.range_succ, List.filterMap_append,
        List.filterMap_congr same, ih]
      simp

theorem taken_perm {α : Type} {order : List Nat} {l : List α} (complete : order.Perm (List.range l.length)) :
    (order.filterMap (l[·]?)).Perm l := by
  have taken := complete.filterMap (l[·]?)
  rwa [filter_map_range_get] at taken

end Loom.LoadOrder
