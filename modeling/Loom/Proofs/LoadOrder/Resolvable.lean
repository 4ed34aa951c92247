import Loom.LoadOrder
import Mathlib.Data.Fintype.EquivFin
import Mathlib.Logic.Relation

set_option autoImplicit false

/-! Which nodes can be placed behind all that they depend on, and what keeps the others from it: with distinct
identities, a cycle that they lead to. -/
namespace Loom.LoadOrder

def Named (nodes : List OrderNode) (i : Nat) (identity : String) : Prop :=
  ∃ node, nodes[i]? = some node ∧ node.identity = identity

def Needs (nodes : List OrderNode) (i : Nat) (identity : String) : Prop :=
  ∃ node, nodes[i]? = some node ∧ identity ∈ node.dependencies ∧
    identity ∈ nodes.map (·.identity)

def DependsOn (nodes : List OrderNode) (i j : Nat) : Prop :=
  ∃ identity, Needs nodes i identity ∧ Named nodes j identity

def Namesakes (nodes : List OrderNode) (i j : Nat) : Prop :=
  ∃ identity, Named nodes i identity ∧ Named nodes j identity

-- The least set of nodes that holds a node once it holds, for each dependency inside the batch, a node of that
-- identity. The supplier picks such a node.
inductive Resolvable (nodes : List OrderNode) : Nat → Prop
  | intro (i : Nat) (supplier : String → Nat) (inside : i < nodes.length)
      (named : ∀ identity, Needs nodes i identity → Named nodes (supplier identity) identity)
      (resolvable : ∀ identity, Needs nodes i identity → Resolvable nodes (supplier identity)) :
      Resolvable nodes i

variable {nodes : List OrderNode}

theorem named_inside {i : Nat} {identity : String} (named : Named nodes i identity) :
    i < nodes.length := by
  obtain ⟨node, found, _⟩ := named
  exact (List.getElem?_eq_some_iff.mp found).1

theorem needs_named {i : Nat} {identity : String} (needs : Needs nodes i identity) :
    ∃ j, Named nodes j identity := by
  obtain ⟨_, _, _, member⟩ := needs
  obtain ⟨node, member, same⟩ := List.mem_map.mp member
  obtain ⟨j, found⟩ := List.mem_iff_getElem?.mp member
  exact ⟨j, node, found, same⟩

theorem identity_unique {i : Nat} {a b : String} (first : Named nodes i a) (second : Named nodes i b) : a = b := by
  obtain ⟨node, found, rfl⟩ := first
  obtain ⟨again, foundAgain, rfl⟩ := second
  rw [Option.some.inj (found.symm.trans foundAgain)]

theorem namesakes_iff {i j : Nat} :
    Namesakes nodes i j ↔ ∃ a ∈ nodes[i]?, ∃ b ∈ nodes[j]?, a.identity = b.identity := by
  constructor
  · intro namesakes
    obtain ⟨_, ⟨a, foundA, rfl⟩, b, foundB, same⟩ := namesakes
    exact ⟨a, foundA, b, foundB, same.symm⟩
  · intro same
    obtain ⟨a, foundA, b, foundB, same⟩ := same
    exact ⟨a.identity, ⟨a, foundA, rfl⟩, b, foundB, same.symm⟩

theorem depends_on_iff {i j : Nat} :
    DependsOn nodes i j ↔ ∃ a ∈ nodes[i]?, ∃ b ∈ nodes[j]?, b.identity ∈ a.dependencies := by
  constructor
  · intro depends
    obtain ⟨_, ⟨a, foundA, member, _⟩, b, foundB, rfl⟩ := depends
    exact ⟨a, foundA, b, foundB, member⟩
  · intro refers
    obtain ⟨a, foundA, b, foundB, member⟩ := refers
    have inside : b.identity ∈ nodes.map (·.identity) := List.mem_map_of_mem (List.mem_of_getElem? foundB)
    exact ⟨b.identity, ⟨a, foundA, member, inside⟩, b, foundB, rfl⟩

instance (i j : Nat) : Decidable (DependsOn nodes i j) := decidable_of_iff' _ depends_on_iff

def dependencies (nodes : List OrderNode) (i : Nat) : Finset Nat :=
  (Finset.range nodes.length).filter (DependsOn nodes i)

theorem mem_dependencies {i j : Nat} : j ∈ dependencies nodes i ↔ DependsOn nodes i j := by
  rw [dependencies, Finset.mem_filter, Finset.mem_range]
  exact and_iff_right_of_imp fun ⟨_, _, named⟩ => named_inside named

theorem dependencies_eq_empty_iff {i : Nat} :
    dependencies nodes i = ∅ ↔ ∀ identity, ¬ Needs nodes i identity := by
  simp only [Finset.eq_empty_iff_forall_notMem, mem_dependencies]
  constructor
  · intro none identity needs
    obtain ⟨j, named⟩ := needs_named needs
    exact none j ⟨identity, needs, named⟩
  · intro none j depends
    obtain ⟨identity, needs, _⟩ := depends
    exact none identity needs

theorem named_unique (distinct : (nodes.map (·.identity)).Nodup) {i j : Nat} {identity : String}
    (first : Named nodes i identity) (second : Named nodes j identity) : i = j := by
  obtain ⟨a, foundA, sameA⟩ := first
  obtain ⟨b, foundB, sameB⟩ := second
  have inside : i < (nodes.map (·.identity)).length := by
    rw [List.length_map]
    exact (List.getElem?_eq_some_iff.mp foundA).1
  apply (List.getElem?_inj inside distinct).mp
  rw [List.getElem?_map, List.getElem?_map, foundA, foundB, Option.map_some, Option.map_some, sameA, sameB]

theorem resolvable_iff (i : Nat) : Resolvable nodes i ↔ i < nodes.length ∧
    ∀ identity, Needs nodes i identity → ∃ j, Named nodes j identity ∧ Resolvable nodes j := by
  constructor
  · intro resolvable
    cases resolvable with
    | intro _ supplier inside named resolvable =>
        exact ⟨inside, fun identity needs =>
          ⟨supplier identity, named identity needs, resolvable identity needs⟩⟩
  · intro supplied
    obtain ⟨inside, supplied⟩ := supplied
    have chosen : ∀ identity, ∃ j, Needs nodes i identity → Named nodes j identity ∧ Resolvable nodes j := by
      intro identity
      by_cases needs : Needs nodes i identity
      · obtain ⟨j, good⟩ := supplied identity needs
        exact ⟨j, fun _ => good⟩
      · exact ⟨0, fun absurdly => absurd absurdly needs⟩
    obtain ⟨supplier, good⟩ := Classical.axiomOfChoice chosen
    exact .intro i supplier inside (fun identity needs => (good identity needs).1)
      (fun identity needs => (good identity needs).2)

theorem resolvable_depends_on (distinct : (nodes.map (·.identity)).Nodup) {i j : Nat}
    (resolvable : Resolvable nodes i) (depends : DependsOn nodes i j) : Resolvable nodes j := by
  obtain ⟨identity, needs, named⟩ := depends
  obtain ⟨k, namedK, resolvableK⟩ := ((resolvable_iff i).mp resolvable).2 identity needs
  rwa [named_unique distinct named namedK]

theorem resolvable_reaches (distinct : (nodes.map (·.identity)).Nodup) {i j : Nat}
    (resolvable : Resolvable nodes i) (path : Relation.ReflTransGen (DependsOn nodes) i j) :
    Resolvable nodes j := by
  induction path with
  | refl => exact resolvable
  | tail _ depends ih => exact resolvable_depends_on distinct ih depends

theorem resolvable_acyclic (distinct : (nodes.map (·.identity)).Nodup) {i : Nat}
    (resolvable : Resolvable nodes i) : ¬ Relation.TransGen (DependsOn nodes) i i := by
  induction resolvable with
  | intro i supplier _ named _ ih =>
      intro cycle
      -- The first node of the cycle behind i lies on the same cycle, turned by one step.
      obtain ⟨j, depends, back⟩ := Relation.TransGen.head'_iff.mp cycle
      have turned : Relation.TransGen (DependsOn nodes) j j := Relation.TransGen.tail' back depends
      obtain ⟨identity, needs, namedJ⟩ := depends
      have same := named_unique distinct namedJ (named identity needs)
      subst same
      exact ih identity needs turned

theorem resolvable_of_no_cycle (i : Nat) (inside : i < nodes.length)
    (noCycle : ∀ j, Relation.ReflTransGen (DependsOn nodes) i j → ¬ Relation.TransGen (DependsOn nodes) j j) :
    Resolvable nodes i := by
  -- Among the finitely many nodes reached from i, going down along dependencies is well-founded.
  let below (a b : Fin nodes.length) : Prop :=
    Relation.ReflTransGen (DependsOn nodes) i b ∧ Relation.TransGen (DependsOn nodes) b a
  have transitive : IsTrans (Fin nodes.length) below :=
    ⟨fun a b c first second => ⟨second.1, second.2.trans first.2⟩⟩
  have irreflexive : Std.Irrefl below := ⟨fun a self => noCycle a self.1 self.2⟩
  have wellFounded : WellFounded below := Finite.wellFounded_of_trans_of_irrefl below
  have everywhere : ∀ a : Fin nodes.length, Relation.ReflTransGen (DependsOn nodes) i a → Resolvable nodes a := by
    intro a
    induction a using wellFounded.induction with
    | _ a ih =>
        intro reached
        refine (resolvable_iff _).mpr ⟨a.isLt, fun identity needs => ?_⟩
        obtain ⟨j, named⟩ := needs_named needs
        have depends : DependsOn nodes a j := ⟨identity, needs, named⟩
        exact ⟨j, named, ih ⟨j, named_inside named⟩ ⟨reached, .single depends⟩ (reached.tail depends)⟩
  exact everywhere ⟨i, inside⟩ .refl

theorem unresolvable_iff_reaches_cycle (distinct : (nodes.map (·.identity)).Nodup) (i : Nat)
    (inside : i < nodes.length) : ¬ Resolvable nodes i ↔
      ∃ j, Relation.ReflTransGen (DependsOn nodes) i j ∧ Relation.TransGen (DependsOn nodes) j j := by
  constructor
  · intro unresolvable
    by_contra none
    exact unresolvable (resolvable_of_no_cycle i inside fun j path cycle => none ⟨j, path, cycle⟩)
  · intro reaches resolvable
    obtain ⟨j, path, cycle⟩ := reaches
    exact resolvable_acyclic distinct (resolvable_reaches distinct resolvable path) cycle

end Loom.LoadOrder
