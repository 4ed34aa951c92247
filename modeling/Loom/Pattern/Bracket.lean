import Loom.Pattern.Escape

set_option autoImplicit false

namespace Loom.Pattern.Parse

def namedClass? (cs : List Char) : Option (ClassTree × List Char) :=
  match cs with
  | '[' :: ':' :: inner =>
    let negated := inner.head? = some '^'
    let start := if negated then inner.tail else inner
    match start.dropWhile (· != ':') with
    | ':' :: ']' :: rest =>
      (CharSet.named? (String.ofList (start.takeWhile (· != ':')))).map fun chars =>
        (.named (.between cs rest) chars negated, rest)
    | _ => none
  | _ => none

def classItem (atom : Atom) : Parse ClassTree :=
  match atom with
  | .literal value => return .literal value
  | .shorthand span kind negated => return .shorthand span kind negated
  | .property span name => return .property span name
  | _ => fail .classEscape atom.span

def boundary (atom : Atom) : Parse Literal :=
  match atom with
  | .literal value => return value
  | _ => fail .classBoundary atom.span

def classAtom : Parse Atom := do
  match ← rest with
  | '\\' :: _ => escape
  | cs =>
    advance
    return .literal ⟨.next cs, cs.headD '-', false⟩

def classRange (opening : Span) : Parse ClassTree := do
  let first ← classAtom
  skipBlanks
  let cs ← rest
  if cs = [] then fail .classUnclosed opening
  let second ← second?
  if cs.head? ≠ some '-' ∨ second = some ']' ∨ second = some '-' then classItem first
  else
    step
    if (← rest) = [] then fail .classUnclosed opening
    let last ← classAtom
    let span := Span.through first.span last.span
    let low ← boundary first
    let high ← boundary last
    if high.char < low.char then fail .classRange span
    return .range span low high

def union (place : Span) : List ClassTree → ClassTree
  | [] => .empty place
  | [item] => item
  | first :: more =>
    .union (.through first.span ((more.getLast?.getD first).span)) (first :: more)

abbrev Pending := Option (ClassTree × SetOperation)

def joined (pending : Pending) (rhs : ClassTree) : ClassTree :=
  match pending with
  | none => rhs
  | some (lhs, kind) => .operation (.through lhs.span rhs.span) kind lhs rhs

def leadingDashes (start : List Char) : Nat → List ClassTree → Parse (List ClassTree)
  | 0, items => return items
  | fuel + 1, items => do
    match ← rest with
    | '-' :: cs =>
      step
      if (← rest) = [] then fail .classUnclosed (.place start)
      leadingDashes start fuel (items ++ [.literal ⟨.next ('-' :: cs), '-', false⟩])
    | _ => return items

mutual

def bracketed : Nat → Parse (Span × Bool × ClassTree)
  | 0 => do fail .classUnclosed (.place (← rest))
  | fuel + 1 => do
    let start ← rest
    step
    let negated := (← rest).head? = some '^'
    if negated then step
    if (← rest) = [] then fail .classUnclosed (.between start [])
    let place := Span.place (← rest)
    let dashes ← leadingDashes start start.length []
    let cs ← rest
    let items ←
      if dashes = [] ∧ cs.head? = some ']' then do
        step
        if (← rest) = [] then fail .classUnclosed (.between start [])
        pure [.literal ⟨.next cs, ']', false⟩]
      else pure dashes
    let body ← classBody fuel (.between start (← rest)) none place items
    return (.between start (← rest), negated, body)

def classBody : Nat → Span → Pending → Span → List ClassTree → Parse ClassTree
  | 0, opening, _, _, _ => fail .classUnclosed opening
  | fuel + 1, opening, pending, place, items => do
    skipBlanks
    let cs ← rest
    let operation (kind : SetOperation) : Parse ClassTree := do
      advance
      advance
      classBody fuel opening (some (joined pending (union place items), kind))
        (.place (← rest)) []
    match cs with
    | [] => fail .classUnclosed opening
    | '[' :: _ =>
      match namedClass? cs with
      | some (item, after) =>
        moveTo after
        classBody fuel opening pending place (items ++ [item])
      | none =>
        let (span, negated, body) ← bracketed fuel
        classBody fuel opening pending place (items ++ [.bracketed span negated body])
    | ']' :: _ =>
      advance
      return joined pending (union place items)
    | '&' :: '&' :: _ => operation .intersection
    | '-' :: '-' :: _ => operation .difference
    | '~' :: '~' :: _ => operation .symmetricDifference
    | _ =>
      let item ← classRange opening
      classBody fuel opening pending place (items ++ [item])

end

end Loom.Pattern.Parse
