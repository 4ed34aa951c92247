set_option autoImplicit false

namespace Loom

structure Path where
  chars : List Char
deriving DecidableEq, Repr

namespace Path

def ofString (s : String) : Path := ⟨s.toList⟩

def text (p : Path) : String := String.ofList p.chars

instance : Coe String Path := ⟨ofString⟩

def pieces : List Char → List (List Char)
  | [] => [[]]
  | c :: cs =>
    if c = '/' then [] :: pieces cs
    else
      match pieces cs with
      | [] => [[c]]
      | piece :: rest => (c :: piece) :: rest

def isAbsolute (p : Path) : Bool := p.chars.head? = some '/'

inductive Component where
  | root
  | here
  | up
  | name (chars : List Char)
deriving DecidableEq, Repr

def componentOf (piece : List Char) : Component :=
  if piece = ['.'] then .here else if piece = ['.', '.'] then .up else .name piece

-- Each component comes with the text of the path up to its end. Empty pieces count for nothing, and so does a single
-- dot behind the first piece.
def stepsFrom (done : Option (List Char)) : List (List Char) → List (Component × List Char)
  | [] => []
  | piece :: rest =>
    let upTo := match done with
      | none => piece
      | some done => done ++ '/' :: piece
    if piece = [] ∨ piece = ['.'] ∧ done.isSome then stepsFrom (some upTo) rest
    else (componentOf piece, upTo) :: stepsFrom (some upTo) rest

def steps (p : Path) : List (Component × List Char) := stepsFrom none (pieces p.chars)

def components (p : Path) : List Component :=
  (if p.isAbsolute then [.root] else []) ++ p.steps.map (·.1)

def same (p q : Path) : Bool := p.components = q.components

def parent? (p : Path) : Option Path :=
  match p.steps.reverse with
  | [] => none
  | [_] => some ⟨if p.isAbsolute then ['/'] else []⟩
  | _ :: (_, upTo) :: _ => some ⟨upTo⟩

def chain (p : Path) : List Path :=
  match p.steps.reverse with
  | [] => []
  | _ :: outer => p :: outer.map fun step => ⟨step.2⟩

def lastName? (p : Path) : Option (List Char × List Char) :=
  match p.steps.getLast? with
  | some (.name chars, upTo) => some (chars, upTo)
  | _ => none

def fileName? (p : Path) : Option (List Char) := p.lastName?.map (·.1)

def splitName (name : List Char) : List Char × Option (List Char) :=
  let ending := (name.reverse.takeWhile (· ≠ '.')).reverse
  let before := name.take (name.length - ending.length - 1)
  if ending.length = name.length ∨ before = [] then (name, none) else (before, some ending)

def stem? (p : Path) : Option (List Char) := p.fileName?.map fun name => (splitName name).1

def extension? (p : Path) : Option (List Char) := p.fileName?.bind fun name => (splitName name).2

def setExtension (p : Path) (extension : List Char) : Path :=
  match p.lastName? with
  | some (name, upTo) =>
    ⟨upTo.take (upTo.length - (name.length - (splitName name).1.length)) ++ '.' :: extension⟩
  | none => p

def withExtension (p : Path) (extension : List Char) : Path :=
  match p.extension? with
  | some old => setExtension ⟨p.chars.take (p.chars.length - old.length)⟩ extension
  | none => p.setExtension extension

def join (p : Path) (name : List Char) : Path :=
  if name.head? = some '/' then ⟨name⟩
  else if p.chars = [] ∨ p.chars.getLast? = some '/' then ⟨p.chars ++ name⟩
  else ⟨p.chars ++ '/' :: name⟩

end Path

end Loom
