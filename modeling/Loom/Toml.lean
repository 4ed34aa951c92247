set_option autoImplicit false

/-! Tables grow key by key, and a key or a table may be defined only once. Numbers and dates are kept as they are
spelt. -/
namespace Loom

inductive Toml where
  | text (s : String)
  | switch (value : Bool)
  | scalar (literal : List Char)
  | list (items : List Toml)
  | table (entries : List (String × Toml))
deriving Inhabited

namespace Toml

inductive Origin where
  | header
  | dotted
  | implied
deriving DecidableEq, Repr

inductive Slot where
  | value (value : Toml)
  | table (origin : Origin) (slots : List (String × Slot))
  | tables (done : List Toml) (current : List (String × Slot))
deriving Inhabited

abbrev Slots := List (String × Slot)

def setSlot (key : String) (slot : Slot) (slots : Slots) : Slots :=
  slots.map fun entry => if entry.1 = key then (key, slot) else entry

-- Tables missing on the way are made. A dotted path may not enter a table that has a header; no path may enter a
-- value.
def alter (dotted : Bool) (change : Origin → Slots → Option (Origin × Slots)) :
    List String → Origin → Slots → Option (Origin × Slots)
  | [], origin, slots => change origin slots
  | key :: path, origin, slots =>
    match slots.lookup key with
    | none => do
      let (made, inner) ← alter dotted change path (if dotted then .dotted else .implied) []
      return (origin, slots ++ [(key, .table made inner)])
    | some (.value _) => none
    | some (.table inner innerSlots) =>
      if dotted ∧ inner = .header then none
      else do
        let (inner, innerSlots) ← alter dotted change path inner innerSlots
        return (origin, setSlot key (.table inner innerSlots) slots)
    | some (.tables done current) => do
      let (_, current) ← alter dotted change path .header current
      return (origin, setSlot key (.tables done current) slots)

def define (path : List String) (key : String) (value : Toml) (slots : Slots) : Option Slots := do
  let (_, slots) ← alter true insert path .header slots
  return slots
where
  insert (origin : Origin) (slots : Slots) : Option (Origin × Slots) :=
    if path ≠ [] ∧ origin ≠ .dotted then none
    else if (slots.lookup key).isSome then none
    else some (origin, slots ++ [(key, .value value)])

def openTable (key : String) (origin : Origin) (slots : Slots) : Option (Origin × Slots) :=
  match slots.lookup key with
  | none => some (origin, slots ++ [(key, .table .header [])])
  | some (.table .implied inner) => some (origin, setSlot key (.table .header inner) slots)
  | some _ => none

mutual

def Slot.close : Slot → Toml
  | .value value => value
  | .table _ slots => .table (closeAll slots)
  | .tables done current => .list (done ++ [.table (closeAll current)])

def closeAll : List (String × Slot) → List (String × Toml)
  | [] => []
  | (key, slot) :: rest => (key, slot.close) :: closeAll rest

end

def appendTable (key : String) (origin : Origin) (slots : Slots) : Option (Origin × Slots) :=
  match slots.lookup key with
  | none => some (origin, slots ++ [(key, .tables [] [])])
  | some (.tables done current) =>
    some (origin, setSlot key (.tables (done ++ [.table (closeAll current)]) []) slots)
  | some _ => none

inductive Statement where
  | assign (path : List String) (key : String) (value : Toml)
  | header (path : List String) (key : String)
  | listHeader (path : List String) (key : String)

def apply (current : List String) (slots : Slots) : Statement → Option (List String × Slots)
  | .assign path key value => do
    let (_, slots) ← alter false (fun origin slots => do
      return (origin, ← define path key value slots)) current .header slots
    return (current, slots)
  | .header path key => do
    let (_, slots) ← alter false (openTable key) path .header slots
    return (path ++ [key], slots)
  | .listHeader path key => do
    let (_, slots) ← alter false (appendTable key) path .header slots
    return (path ++ [key], slots)

def ofStatements (statements : List Statement) : Option Toml :=
  go [] [] statements
where
  go (current : List String) (slots : Slots) : List Statement → Option Toml
    | [] => some (.table (closeAll slots))
    | statement :: rest =>
      match apply current slots statement with
      | some (current, slots) => go current slots rest
      | none => none

end Toml

end Loom
