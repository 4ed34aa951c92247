import Loom.Event
import Loom.Pattern
import Loom.Text.Blank

set_option autoImplicit false

/-! A filter is a list of directives: a level for all targets, or for those that start with a name. The longest name
that fits decides. -/
namespace Loom

abbrev Limit := Option Level

structure Directive where
  name : Option String
  limit : Limit
deriving DecidableEq, Repr

structure LogFilter where
  directives : List Directive
  wanted : Option Pattern
deriving DecidableEq, Repr

namespace LogFilter

def limit? (s : String) : Option Limit :=
  let upper := String.ofList (s.toList.map Char.toUpper)
  if upper = "OFF" then some none else (Level.all.find? (·.name = upper)).map some

def directive (s : String) : Except String Directive :=
  match s.splitOn "=" with
  | [part] =>
    match limit? part with
    | some limit => .ok ⟨none, limit⟩
    | none => .ok ⟨some part, some .trace⟩
  | [name, level] =>
    let level := Text.trim level
    if level = "" then .ok ⟨some name, some .trace⟩
    else
      match limit? level with
      | some limit => .ok ⟨some name, limit⟩
      | none => .error s!"invalid logging spec '{level}'"
  | _ => .error s!"invalid logging spec '{s}'"

def insert (directives : List Directive) (d : Directive) : List Directive :=
  if directives.any (·.name = d.name) then
    directives.map fun old => if old.name = d.name then d else old
  else directives ++ [d]

def nameLength (d : Directive) : Nat := (d.name.map String.utf8ByteSize).getD 0

def ofDirectives (directives : List Directive) (wanted : Option Pattern) : LogFilter :=
  if directives.isEmpty then ⟨[⟨none, some .error⟩], wanted⟩
  else ⟨(directives.mergeSort fun a b => nameLength a ≤ nameLength b).reverse, wanted⟩

def messagePattern (pattern : String) : Option Pattern × List String :=
  match Pattern.ofList pattern.toList with
  | .ok pattern => (some pattern, [])
  | .error refusal => (none, ["invalid regex filter - " ++ refusal.message pattern.toList])

def parse (spec : String) : LogFilter × List String :=
  match spec.splitOn "/" with
  | directives :: rest =>
    if rest.length > 1 then
      (ofDirectives [] none, [s!"invalid logging spec '{spec}' (too many '/'s)"])
    else
      let parts := ((directives.splitOn ",").map Text.trim).filter (· ≠ "")
      let found := parts.foldl (fun found part =>
        match directive part with
        | .ok d => (insert found.1 d, found.2)
        | .error complaint => (found.1, found.2 ++ [complaint])) ([], [])
      let (pattern, complaints) := (rest.head?.map messagePattern).getD (none, [])
      (ofDirectives found.1 pattern, found.2 ++ complaints)
  | [] => (ofDirectives [] none, [])

def covers (d : Directive) (target : String) : Bool :=
  match d.name with
  | some name => name.toList.isPrefixOf target.toList
  | none => true

def shows (f : LogFilter) (event : Event) : Bool :=
  match f.directives.find? (covers · event.target) with
  | some d =>
    (match d.limit with
      | some limit => event.level.rank ≤ limit.rank
      | none => false)
      && f.wanted.all (·.occursIn event.message)
  | none => false

end LogFilter

def Event.line (e : Event) : String :=
  let level := e.level.name
  "[" ++ level ++ String.ofList (List.replicate (5 - level.length) ' ') ++ "] " ++ e.target ++ " - "
    ++ e.message

end Loom
