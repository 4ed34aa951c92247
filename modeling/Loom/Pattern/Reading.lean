import Loom.Pattern.Tree
import Loom.Text.Blank

set_option autoImplicit false

namespace Loom.Pattern

structure Progress where
  rest : List Char
  spaced : Bool
  names : List (List Char × Span)

abbrev Parse := StateT Progress (Except Fault)

namespace Parse

def fail {α : Type} (cause : Cause) (span : Span) : Parse α := throw ⟨cause, span, none⟩

def rest : Parse (List Char) := do return (← get).rest

def moveTo (cs : List Char) : Parse Unit := modify fun p => { p with rest := cs }

def advance : Parse Unit := modify fun p => { p with rest := p.rest.tail }

def dropBlanks (inComment : Bool) : List Char → List Char
  | [] => []
  | c :: rest =>
    if inComment then dropBlanks (c != '\n') rest
    else if c = '#' then dropBlanks true rest
    else if Text.isBlank c then dropBlanks false rest
    else c :: rest

def skipBlanks : Parse Unit :=
  modify fun p => if p.spaced then { p with rest := dropBlanks false p.rest } else p

def step : Parse Unit := do
  advance
  skipBlanks

def second? : Parse (Option Char) := do
  let p ← get
  let behind := p.rest.tail
  if p.spaced then
    let solid := behind.dropWhile Text.isBlank
    let solid := if solid.head? = some '#' then solid.tail.dropWhile Text.isBlank else solid
    return solid.head?.orElse fun _ => behind.head?
  else return behind.head?

def takeWhile (p : Char → Bool) : Parse (List Char) := do
  go (← rest).length []
where
  go : Nat → List Char → Parse (List Char)
    | 0, found => return found
    | fuel + 1, found => do
      match (← rest).head?.filter p with
      | some c =>
        step
        go fuel (found ++ [c])
      | none => return found

def decimal : Parse (Except Fault Nat) := do
  moveTo ((← rest).dropWhile Text.isBlank)
  let start ← rest
  let digits ← takeWhile Char.isDigit
  let span := Span.between start (← rest)
  moveTo ((← rest).dropWhile Text.isBlank)
  let n := digits.foldl (fun n c => n * 10 + (c.toNat - '0'.toNat)) 0
  if digits = [] then return .error ⟨.decimalEmpty, span, none⟩
  else if n < UInt32.size then return .ok n
  else return .error ⟨.decimalInvalid, span, none⟩

end Parse

end Loom.Pattern
