import Loom.Json.Parser
import Loom.Pattern.Reading

set_option autoImplicit false

namespace Loom.Pattern

inductive Atom where
  | literal (value : Literal)
  | dot (span : Span)
  | assertion (span : Span) (kind : Assertion)
  | shorthand (span : Span) (kind : Shorthand) (negated : Bool)
  | property (span : Span) (name : List Char)

namespace Atom

def span : Atom → Span
  | .literal value => value.span
  | .dot span => span
  | .assertion span _ => span
  | .shorthand span _ _ => span
  | .property span _ => span

def tree : Atom → Tree
  | .literal value => .literal value
  | .dot span => .dot span
  | .assertion span kind => .assertion span kind
  | .shorthand span kind negated => .shorthand span kind negated
  | .property span name => .property span name

end Atom

namespace Parse

def isHex (c : Char) : Bool := (Json.hexValue? c).isSome

def charOfHex? (digits : List Char) : Option Char :=
  let n := digits.foldl (fun n c => n * 16 + (Json.hexValue? c).getD 0) 0
  if n.isValidChar then some (Char.ofNat n) else none

def hexDigits : Nat → List Char → Parse (List Char)
  | 0, found => return found
  | count + 1, found => do
    match ← rest with
    | [] => fail .escapeUnfinished (.place [])
    | c :: cs =>
      if isHex c then
        step
        hexDigits count (found ++ [c])
      else fail .hexDigit (.next (c :: cs))

def hexEscape (start : List Char) (count : Nat) : Parse Atom := do
  step
  match ← rest with
  | [] => fail .escapeUnfinished (.place [])
  | '\x7b' :: inner =>
    let brace := '\x7b' :: inner
    step
    let digits ← takeWhile isHex
    match ← rest with
    | [] => fail .escapeUnfinished (.between brace [])
    | '\x7d' :: cs =>
      step
      if digits = [] then fail .hexEmpty (.between brace (← rest))
      match charOfHex? digits with
      | some c => return .literal ⟨.between start (← rest), c, false⟩
      | none => fail .hexInvalid (.between inner ('\x7d' :: cs))
    | cs => fail .hexDigit (.next cs)
  | first =>
    let digits ← hexDigits count []
    match charOfHex? digits with
    | some c => return .literal ⟨.between start (← rest), c, count == 2⟩
    | none => fail .hexInvalid (.between first (← rest))

def propertyEscape (start : List Char) : Parse Atom := do
  step
  match ← rest with
  | [] => fail .escapeUnfinished (.place [])
  | '\x7b' :: _ =>
    step
    let name ← takeWhile (· != '\x7d')
    if (← rest) = [] then fail .escapeUnfinished (.place [])
    advance
    return .property (.between start (← rest)) name
  | c :: cs =>
    if c = '\\' then fail .propertyInvalid (.next (c :: cs))
    advance
    return .property (.between start cs) [c]

def isEdgeSign (c : Char) : Bool := c.isAlpha || c = '-'

def wordEdge (start : List Char) : Parse WordEdge := do
  match ← rest with
  | '\x7b' :: inner =>
    let brace := '\x7b' :: inner
    step
    let contents ← rest
    let name ← takeWhile isEdgeSign
    match ← rest with
    | '\x7d' :: cs =>
      if name = [] then
        moveTo brace
        return .boundary
      advance
      match String.ofList name with
      | "start" => return .start
      | "end" => return .stop
      | "start-half" => return .startHalf
      | "end-half" => return .stopHalf
      | _ => fail .boundaryUnknown (.between contents ('\x7d' :: cs))
    | cs =>
      if contents = [] then fail .boundaryUnfinished (.between start [])
      else if name = [] then
        moveTo brace
        return .boundary
      else fail .boundaryUnclosed (.between brace cs)
  | _ => return .boundary

def standsForItself (c : Char) : Bool :=
  c.toNat < 0x80 && !c.isAlphanum && c != '<' && c != '>'

def control? : Char → Option Char
  | 'a' => some '\x07'
  | 'f' => some '\x0c'
  | 't' => some '\t'
  | 'n' => some '\n'
  | 'r' => some '\r'
  | 'v' => some '\x0b'
  | _ => none

def shorthand? : Char → Option (Shorthand × Bool)
  | 'd' => some (.digit, false)
  | 'D' => some (.digit, true)
  | 's' => some (.space, false)
  | 'S' => some (.space, true)
  | 'w' => some (.word, false)
  | 'W' => some (.word, true)
  | _ => none

def assertion? : Char → Option Assertion
  | 'A' => some .textStart
  | 'z' => some .textEnd
  | 'B' => some (.word .noBoundary)
  | '<' => some (.word .start)
  | '>' => some (.word .stop)
  | _ => none

def escape : Parse Atom := do
  let start ← rest
  advance
  match ← rest with
  | [] => fail .escapeUnfinished (.between start [])
  | c :: cs =>
    let span := Span.between start cs
    if c.isDigit then fail .backreference span
    else if c = 'x' then hexEscape start 2
    else if c = 'u' then hexEscape start 4
    else if c = 'U' then hexEscape start 8
    else if c = 'p' ∨ c = 'P' then propertyEscape start
    else
      advance
      if c = 'b' then
        let edge ← wordEdge start
        return .assertion (.between start (← rest)) (.word edge)
      else if standsForItself c then return .literal ⟨span, c, false⟩
      else
        match control? c, shorthand? c, assertion? c with
        | some c, _, _ => return .literal ⟨span, c, false⟩
        | _, some (kind, negated), _ => return .shorthand span kind negated
        | _, _, some kind => return .assertion span kind
        | _, _, _ => fail .escapeUnknown span

def atom : Parse Atom := do
  match ← rest with
  | '\\' :: _ => escape
  | cs =>
    advance
    let span := Span.next cs
    match cs.head? with
    | some '.' => return .dot span
    | some '^' => return .assertion span .lineStart
    | some '$' => return .assertion span .lineEnd
    | some c => return .literal ⟨span, c, false⟩
    | none => fail .escapeUnfinished span

end Parse

end Loom.Pattern
