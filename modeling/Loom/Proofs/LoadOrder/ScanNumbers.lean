import Loom.Proofs.LoadOrder.Precedence
import Mathlib.Data.Finset.Lattice.Fold
import Mathlib.Order.Lattice.Nat

set_option autoImplicit false

/-! The number of the scan that places a node, from the references alone. Nodes come by these numbers, those of one
scan by their indices. -/
namespace Loom.LoadOrder

variable {nodes : List OrderNode} {number : Nat → Nat}

def ReachesCycle (nodes : List OrderNode) (i : Nat) : Prop :=
  ∃ j, Relation.ReflTransGen (DependsOn nodes) i j ∧ Relation.TransGen (DependsOn nodes) j j

-- A node in front of one that it depends on waits for the scan after the one that places that; a node behind it is
-- placed in the same scan.
def numberAfter (nodes : List OrderNode) (number : Nat → Nat) (i : Nat) : Nat :=
  if dependencies nodes i = ∅ then 0
  else max 1 ((dependencies nodes i).sup fun j => if j < i then number j else number j + 1)

def ScanNumbers (nodes : List OrderNode) (number : Nat → Nat) : Prop :=
  ∀ i < nodes.length, ¬ ReachesCycle nodes i → number i = numberAfter nodes number i

def scanNumber (nodes : List OrderNode) : Nat → Nat := (numberAfter nodes)^[nodes.length] fun _ => 0

theorem resolvable_iff_no_cycle (distinct : (nodes.map (·.identity)).Nodup) (i : Nat) :
    Resolvable nodes i ↔ i < nodes.length ∧ ¬ ReachesCycle nodes i := by
  constructor
  · intro resolvable
    have inside := ((resolvable_iff i).mp resolvable).1
    exact ⟨inside, fun cycle => (unresolvable_iff_reaches_cycle distinct i inside).mpr cycle resolvable⟩
  · intro noCycle
    by_contra unresolvable
    exact noCycle.2 ((unresolvable_iff_reaches_cycle distinct i noCycle.1).mp unresolvable)

theorem number_after_congr {other : Nat → Nat} {i : Nat} (same : ∀ j, DependsOn nodes i j → number j = other j) :
    numberAfter nodes number i = numberAfter nodes other i := by
  have alike : ∀ j ∈ dependencies nodes i,
      (if j < i then number j else number j + 1) = if j < i then other j else other j + 1 :=
    fun j member => by rw [same j (mem_dependencies.mp member)]
  rw [numberAfter, numberAfter, Finset.sup_congr rfl alike]

theorem number_after_le_iff {k : Nat} (positive : 1 ≤ k) (i : Nat) : numberAfter nodes number i ≤ k ↔
    ∀ j, DependsOn nodes i j → (if j < i then number j else number j + 1) ≤ k := by
  by_cases none : dependencies nodes i = ∅
  · have noneOf : ∀ j, ¬ DependsOn nodes i j := fun j depends => by
      have member := mem_dependencies.mpr depends
      rw [none] at member
      cases member
    simp [numberAfter, none, noneOf]
  · simp only [numberAfter, if_neg none, max_le_iff, positive, true_and, Finset.sup_le_iff, mem_dependencies]

theorem steps_settled (distinct : (nodes.map (·.identity)).Nodup) {order : List Nat} (settled : Settled nodes order) :
    ∀ i ∈ order, ∀ steps ≥ order.length,
      (numberAfter nodes)^[steps + 1] (fun _ => 0) i = (numberAfter nodes)^[steps] (fun _ => 0) i := by
  -- The numbers of the first nodes are final after as many steps as there are of them.
  induction settled with
  | nil => exact List.forall_mem_nil _
  | snoc order last _ _ supplied ih =>
      intro i member steps enough
      rw [List.length_append, List.length_singleton] at enough
      rcases List.mem_append.mp member with earlier | own
      · exact ih i earlier steps (by omega)
      · obtain ⟨before, rfl⟩ : ∃ before, steps = before + 1 := ⟨steps - 1, by omega⟩
        rw [List.mem_singleton.mp own, Function.iterate_succ_apply', Function.iterate_succ_apply']
        apply number_after_congr
        intro j depends
        obtain ⟨identity, needs, named⟩ := depends
        obtain ⟨k, placed, namedK⟩ := supplied identity needs
        have final := ih k placed before (by omega)
        rwa [named_unique distinct named namedK, ← Function.iterate_succ_apply' (numberAfter nodes)]

theorem scan_numbers_scan_number (distinct : (nodes.map (·.identity)).Nodup) :
    ScanNumbers nodes (scanNumber nodes) := by
  intro i inside noCycle
  obtain ⟨order, placed, left, _, frontier, stuck⟩ := frontier_of_nodes nodes
  have member : i ∈ order :=
    (settled_iff_resolvable frontier stuck i).mpr ((resolvable_iff_no_cycle distinct i).mpr ⟨inside, noCycle⟩)
  have bound : order.length ≤ nodes.length := by
    have complete := frontier.complete.length_eq
    simp only [List.length_append, List.length_map, List.length_range] at complete
    omega
  rw [scanNumber, ← Function.iterate_succ_apply' (numberAfter nodes)]
  exact (steps_settled distinct frontier.settled i member nodes.length bound).symm

def Earlier (number : Nat → Nat) (i j : Nat) : Prop := number i < number j ∨ number i = number j ∧ i < j

structure WithinScan (nodes : List OrderNode) (number : Nat → Nat) (scanned : Nat) (order : List Nat)
    (kept pending : List Pending) : Prop where
  reached : ∀ i ∈ order, number i < scanned ∨ number i = scanned ∧ ∀ p ∈ pending, i < p.index
  later : ∀ p ∈ kept, ¬ ReachesCycle nodes p.index → scanned < number p.index
  ahead : ∀ p ∈ pending, ¬ ReachesCycle nodes p.index → scanned ≤ number p.index
  sorted : order.Pairwise (Earlier number)

structure BeforeScan (nodes : List OrderNode) (number : Nat → Nat) (scanned : Nat) (order : List Nat)
    (left : List Pending) : Prop where
  reached : ∀ i ∈ order, number i < scanned
  ahead : ∀ p ∈ left, ¬ ReachesCycle nodes p.index → scanned ≤ number p.index
  sorted : order.Pairwise (Earlier number)

theorem is_ready_iff_placed (distinct : (nodes.map (·.identity)).Nodup) {order : List Nat} {placed : List String}
    {left : List Pending} {p : Pending} (frontier : Frontier nodes order placed left) (member : p ∈ left) :
    isReady placed p = true ↔ ∀ j, DependsOn nodes p.index j → j ∈ order := by
  rw [is_ready_iff_supplied frontier member]
  constructor
  · intro supplied j depends
    obtain ⟨k, placed, identity, named, namedK⟩ := supplied j depends
    rwa [named_unique distinct named namedK]
  · intro placed j depends
    refine ⟨j, placed j depends, ?_⟩
    obtain ⟨identity, _, named⟩ := depends
    exact ⟨identity, named, named⟩

theorem reaches_cycle_of_depends {i j : Nat} (depends : DependsOn nodes i j) (cycle : ReachesCycle nodes j) :
    ReachesCycle nodes i := by
  obtain ⟨k, path, cycle⟩ := cycle
  exact ⟨k, .head depends path, cycle⟩

theorem index_before_rest {order : List Nat} {placed : List String} {kept rest : List Pending} {p : Pending}
    (frontier : Frontier nodes order placed (kept ++ p :: rest)) : ∀ q ∈ rest, p.index < q.index := by
  have increasing := frontier.increasing
  rw [List.map_append, List.map_cons] at increasing
  have behind := (List.pairwise_cons.mp (List.pairwise_append.mp increasing).2.1).1
  exact fun q member => behind q.index (List.mem_map_of_mem member)

section Step

variable {scanned : Nat} {order : List Nat} {placed : List String} {kept rest : List Pending} {p : Pending}

theorem ready_number (distinct : (nodes.map (·.identity)).Nodup) (numbers : ScanNumbers nodes number)
    (positive : 1 ≤ scanned) (frontier : Frontier nodes order placed (kept ++ p :: rest))
    (within : WithinScan nodes number scanned order kept (p :: rest)) (ready : isReady placed p = true) :
    number p.index = scanned := by
  have resolvable := settled_resolvable (frontier_step frontier ready).settled p.index (by simp)
  obtain ⟨inside, noCycle⟩ := (resolvable_iff_no_cycle distinct p.index).mp resolvable
  have upper : number p.index ≤ scanned := by
    rw [numbers p.index inside noCycle, number_after_le_iff positive]
    intro j depends
    have placed := (is_ready_iff_placed distinct frontier (List.mem_append_right kept List.mem_cons_self)).mp ready j depends
    rcases within.reached j placed with before | ⟨now, front⟩
    · split <;> omega
    · rw [if_pos (front p List.mem_cons_self), now]
  exact Nat.le_antisymm upper (within.ahead p List.mem_cons_self noCycle)

theorem unready_number (distinct : (nodes.map (·.identity)).Nodup) (numbers : ScanNumbers nodes number)
    (positive : 1 ≤ scanned) (frontier : Frontier nodes order placed (kept ++ p :: rest))
    (within : WithinScan nodes number scanned order kept (p :: rest)) (unready : ¬ isReady placed p = true)
    (noCycle : ¬ ReachesCycle nodes p.index) : scanned < number p.index := by
  -- The node waits for one that this scan has passed over or not come to yet.
  have member : p ∈ kept ++ p :: rest := List.mem_append_right kept List.mem_cons_self
  by_contra upper
  apply unready
  rw [is_ready_iff_placed distinct frontier member]
  intro j depends
  obtain ⟨node, found, _⟩ := Option.map_eq_some_iff.mp (frontier.cut p member)
  have inside : p.index < nodes.length := (List.getElem?_eq_some_iff.mp found).1
  have bound : (if j < p.index then number j else number j + 1) ≤ scanned := by
    rw [numbers p.index inside noCycle, Nat.not_lt, number_after_le_iff positive] at upper
    exact upper j depends
  have noCycleJ : ¬ ReachesCycle nodes j := fun cycle => noCycle (reaches_cycle_of_depends depends cycle)
  have listed : j ∈ order ++ (kept ++ p :: rest).map (·.index) := by
    obtain ⟨_, _, named⟩ := depends
    exact frontier.complete.mem_iff.mpr (List.mem_range.mpr (named_inside named))
  rcases List.mem_append.mp listed with settled | unsettled
  · exact settled
  · obtain ⟨q, inQ, rfl⟩ := List.mem_map.mp unsettled
    exfalso
    rcases List.mem_append.mp inQ with passed | ahead
    · have later := within.later q passed noCycleJ
      split at bound <;> omega
    · rcases List.mem_cons.mp ahead with self | behind
      · rw [self] at depends
        exact noCycle ⟨p.index, .refl, .single depends⟩
      · have before := index_before_rest frontier q behind
        have waits := within.ahead q ahead noCycleJ
        rw [if_neg (by omega)] at bound
        omega

theorem within_scan_place (distinct : (nodes.map (·.identity)).Nodup) (numbers : ScanNumbers nodes number)
    (positive : 1 ≤ scanned) (frontier : Frontier nodes order placed (kept ++ p :: rest))
    (within : WithinScan nodes number scanned order kept (p :: rest)) (ready : isReady placed p = true) :
    WithinScan nodes number scanned (order ++ [p.index]) kept rest := by
  have now := ready_number distinct numbers positive frontier within ready
  refine ⟨fun i member => ?_, within.later, fun q member => within.ahead q (List.mem_cons_of_mem p member), ?_⟩
  · rcases List.mem_append.mp member with earlier | last
    · exact (within.reached i earlier).imp_right fun same =>
        ⟨same.1, fun q inside => same.2 q (List.mem_cons_of_mem p inside)⟩
    · rw [List.mem_singleton.mp last]
      exact .inr ⟨now, index_before_rest frontier⟩
  · refine List.pairwise_append.mpr ⟨within.sorted, List.pairwise_singleton _ _, fun i member j last => ?_⟩
    rw [List.mem_singleton.mp last, Earlier, now]
    exact (within.reached i member).imp_right fun same => ⟨same.1, same.2 p List.mem_cons_self⟩

theorem within_scan_pass (distinct : (nodes.map (·.identity)).Nodup) (numbers : ScanNumbers nodes number)
    (positive : 1 ≤ scanned) (frontier : Frontier nodes order placed (kept ++ p :: rest))
    (within : WithinScan nodes number scanned order kept (p :: rest)) (unready : ¬ isReady placed p = true) :
    WithinScan nodes number scanned order (kept ++ [p]) rest := by
  refine ⟨fun i member => ?_, fun q member => ?_, fun q member => within.ahead q (List.mem_cons_of_mem p member),
    within.sorted⟩
  · exact (within.reached i member).imp_right fun same =>
      ⟨same.1, fun q inside => same.2 q (List.mem_cons_of_mem p inside)⟩
  · rcases List.mem_append.mp member with earlier | last
    · exact within.later q earlier
    · rw [List.mem_singleton.mp last]
      exact unready_number distinct numbers positive frontier within unready

end Step

theorem within_scan_end (distinct : (nodes.map (·.identity)).Nodup) (numbers : ScanNumbers nodes number)
    {scanned : Nat} (positive : 1 ≤ scanned) {order : List Nat} {placed : List String} {kept pending : List Pending}
    (frontier : Frontier nodes order placed (kept ++ pending))
    (within : WithinScan nodes number scanned order kept pending) :
    WithinScan nodes number scanned (order ++ (scan placed pending).order) (kept ++ (scan placed pending).left) [] := by
  induction pending generalizing order placed kept with
  | nil => simpa only [scan, List.append_nil] using within
  | cons p rest ih =>
      by_cases ready : isReady placed p = true
      · have next := ih (frontier_step frontier ready)
          (within_scan_place distinct numbers positive frontier within ready)
        simpa only [scan, if_pos ready, List.append_assoc, List.singleton_append] using next
      · have passed := within_scan_pass distinct numbers positive frontier within ready
        rw [List.append_cons] at frontier
        have next := ih frontier passed
        simpa only [scan, if_neg ready, List.append_assoc, List.singleton_append] using next

theorem before_next_scan (distinct : (nodes.map (·.identity)).Nodup) (numbers : ScanNumbers nodes number)
    {scanned : Nat} (positive : 1 ≤ scanned) {order : List Nat} {placed : List String} {left : List Pending}
    (frontier : Frontier nodes order placed left) (before : BeforeScan nodes number scanned order left) :
    BeforeScan nodes number (scanned + 1) (order ++ (scan placed left).order) (scan placed left).left := by
  have within : WithinScan nodes number scanned order [] left :=
    ⟨fun i member => .inl (before.reached i member), List.forall_mem_nil _, before.ahead, before.sorted⟩
  rw [← List.nil_append left] at frontier
  have done := within_scan_end distinct numbers positive frontier within
  refine ⟨fun i member => ?_, done.later, done.sorted⟩
  rcases done.reached i member with earlier | ⟨now, _⟩ <;> omega

theorem before_first_scan (numbers : ScanNumbers nodes number) (distinct : (nodes.map (·.identity)).Nodup) :
    BeforeScan nodes number 1 (start nodes).order (start nodes).left := by
  have free : ∀ i ∈ (start nodes).order, number i = 0 := by
    intro i member
    obtain ⟨inside, noCycle⟩ := (resolvable_iff_no_cycle distinct i).mp
      (settled_resolvable (frontier_start nodes).settled i member)
    rw [start_order, List.mem_filter, decide_eq_true_iff] at member
    rw [numbers i inside noCycle, numberAfter, if_pos member.2]
  refine ⟨fun i member => ?_, fun p member noCycle => ?_, ?_⟩
  · rw [free i member]
    exact Nat.one_pos
  · have listed : p.index ∈ (start nodes).left.map (·.index) := List.mem_map_of_mem member
    rw [start_left, List.mem_filter, List.mem_range, decide_eq_true_iff] at listed
    rw [numbers p.index listed.1 noCycle, numberAfter, if_neg listed.2]
    exact Nat.le_max_left _ _
  · have increasing : (start nodes).order.Pairwise (· < ·) := by
      rw [start_order]
      exact List.pairwise_lt_range.filter _
    exact increasing.imp_of_mem fun first second less => .inr ⟨(free _ first).trans (free _ second).symm, less⟩

/-- Nodes that lead to a cycle stand at the end, by their indices alone. -/
theorem order_by_scan_number (nodes : List OrderNode) (distinct : (nodes.map (·.identity)).Nodup) :
    ScanNumbers nodes (scanNumber nodes) ∧ ∀ number, ScanNumbers nodes number →
      ∃ placed left, (ofNodes nodes).order = placed ++ left ∧
        (∀ i, i ∈ placed ↔ i < nodes.length ∧ ¬ ReachesCycle nodes i) ∧
        placed.Pairwise (fun i j => number i < number j ∨ number i = number j ∧ i < j) ∧
        (∀ i, i ∈ left ↔ i < nodes.length ∧ ReachesCycle nodes i) ∧ left.Pairwise (· < ·) := by
  refine ⟨scan_numbers_scan_number distinct, fun number numbers => ?_⟩
  let Holds (order : List Nat) (placed : List String) (left : List Pending) : Prop :=
    Frontier nodes order placed left ∧ ∃ scanned ≥ 1, BeforeScan nodes number scanned order left
  have keeps : ∀ order placed left, Holds order placed left →
      Holds (order ++ (scan placed left).order) (scan placed left).placed (scan placed left).left := by
    intro order placed left holds
    obtain ⟨frontier, scanned, positive, before⟩ := holds
    exact ⟨frontier_scan_all frontier, scanned + 1, Nat.le_add_left 1 scanned,
      before_next_scan distinct numbers positive frontier before⟩
  obtain ⟨order, placed, left, result, ⟨frontier, _, _, before⟩, stuck⟩ :=
    of_nodes_rests Holds keeps ⟨frontier_start nodes, 1, le_refl 1, before_first_scan numbers distinct⟩
  refine ⟨order, left.map (·.index), by rw [result], fun i => ?_, before.sorted, fun i => ?_, frontier.increasing⟩
  · rw [settled_iff_resolvable frontier stuck, resolvable_iff_no_cycle distinct]
  · rw [left_iff_unresolvable frontier stuck, resolvable_iff_no_cycle distinct, not_and, Classical.not_not]
    exact and_congr_right fun inside => imp_iff_right inside

-- The first scan passes over App, which stands in front of Game, and places Game and Tools; the second places App. X
-- and Y refer to each other.
theorem order_by_scan_number_of_six :
    let nodes : List OrderNode :=
      [⟨"X", ["Y"]⟩, ⟨"App", ["Game"]⟩, ⟨"Game", ["Core"]⟩, ⟨"Core", []⟩, ⟨"Tools", ["Game"]⟩, ⟨"Y", ["X"]⟩]
    (nodes.map (·.identity)).Nodup ∧ ScanNumbers nodes (scanNumber nodes) ∧
      [1, 2, 3, 4].map (scanNumber nodes) = [2, 1, 0, 1] ∧ ReachesCycle nodes 0 ∧
      ∃ placed left, [3, 2, 4, 1, 0, 5] = placed ++ left ∧
        (∀ i, i ∈ placed ↔ i < 6 ∧ ¬ ReachesCycle nodes i) ∧
        placed.Pairwise (fun i j => scanNumber nodes i < scanNumber nodes j ∨
          scanNumber nodes i = scanNumber nodes j ∧ i < j) ∧
        (∀ i, i ∈ left ↔ i < 6 ∧ ReachesCycle nodes i) ∧ left.Pairwise (· < ·) := by
  intro nodes
  have distinct : (nodes.map (·.identity)).Nodup := by decide
  have order : (ofNodes nodes).order = [3, 2, 4, 1, 0, 5] := by decide +kernel
  have there : DependsOn nodes 0 5 := by decide
  have back : DependsOn nodes 5 0 := by decide
  obtain ⟨numbers, law⟩ := order_by_scan_number nodes distinct
  refine ⟨distinct, numbers, by decide, ⟨0, .refl, .head there (.single back)⟩, ?_⟩
  rw [← order]
  exact law (scanNumber nodes) numbers

end Loom.LoadOrder
