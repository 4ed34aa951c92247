import Loom.Module

set_option autoImplicit false

/-! Every module comes after the modules of the batch that it refers to. Those that cannot be placed so keep their
order at the end. -/
namespace Loom

structure OrderNode where
  identity : String
  dependencies : List String
deriving DecidableEq, Repr

def Module.orderNode (m : Module) : OrderNode := ⟨m.identity.fullName, m.dependencies⟩

structure LoadOrder where
  order : List Nat
  unresolved : List String
deriving DecidableEq, Repr

namespace LoadOrder

structure Pending where
  index : Nat
  node : OrderNode
deriving DecidableEq, Repr

-- A node is placed as soon as all it depends on is, also by what the same scan placed before.
structure Scan where
  placed : List String
  order : List Nat
  left : List Pending
deriving DecidableEq, Repr

def isReady (placed : List String) (p : Pending) : Bool :=
  p.node.dependencies.all placed.contains

def scan (placed : List String) : List Pending → Scan
  | [] => ⟨placed, [], []⟩
  | p :: rest =>
    if isReady placed p then
      let next := scan (p.node.identity :: placed) rest
      { next with order := p.index :: next.order }
    else
      let next := scan placed rest
      { next with left := p :: next.left }

theorem length_left_le (placed : List String) (pending : List Pending) :
    (scan placed pending).left.length ≤ pending.length := by
  induction pending generalizing placed with
  | nil => simp [scan]
  | cons p rest ih =>
      by_cases ready : isReady placed p
      · have := ih (p.node.identity :: placed)
        simp only [scan, ready, if_true, List.length_cons]
        omega
      · have := ih placed
        simp only [scan, ready, Bool.false_eq_true, if_false, List.length_cons]
        omega

def settle (placed : List String) (pending : List Pending) : LoadOrder :=
  if (scan placed pending).left.length < pending.length then
    let rest := settle (scan placed pending).placed (scan placed pending).left
    { rest with order := (scan placed pending).order ++ rest.order }
  else ⟨pending.map (·.index), pending.map (·.node.identity)⟩
termination_by pending.length

def pendingFrom (batch : List String) (start : Nat) : List OrderNode → List Pending
  | [] => []
  | node :: rest =>
    ⟨start, ⟨node.identity, node.dependencies.filter batch.contains⟩⟩ :: pendingFrom batch (start + 1) rest

def isFree (p : Pending) : Bool := p.node.dependencies.isEmpty

def ofNodes (nodes : List OrderNode) : LoadOrder :=
  let pending := pendingFrom (nodes.map (·.identity)) 0 nodes
  let free := pending.filter isFree
  let rest := settle (free.map (·.node.identity)) (pending.filter fun p => !isFree p)
  { rest with order := free.map (·.index) ++ rest.order }

end LoadOrder

end Loom
