import Loom.Pattern.CharSet
import Loom.Pattern.Tree

set_option autoImplicit false

/-! An expression takes places of a text to the places that can be reached from them, so a pattern fits somewhere if
any place at all can be reached. -/
namespace Loom.Pattern

inductive Look where
  | textStart
  | textEnd
  | lineStart (crlf : Bool)
  | lineEnd (crlf : Bool)
  | word (edge : WordEdge) (anyScript : Bool)
deriving DecidableEq, Repr

inductive Expression where
  | empty
  | chars (set : CharSet)
  | look (condition : Look)
  | sequence (first second : Expression)
  | choice (first second : Expression)
  | repeated (least : Nat) (most : Option Nat) (body : Expression)
deriving DecidableEq, Repr

def WordEdge.holds (edge : WordEdge) (before after : Bool) : Bool :=
  match edge with
  | .boundary => before != after
  | .noBoundary => before == after
  | .start => !before && after
  | .stop => before && !after
  | .startHalf => !before
  | .stopHalf => !after

namespace Look

def isWord (c : Option Char) : Bool := c.any fun c => CharSet.word.contains c.toNat

def holds (condition : Look) (before after : Option Char) : Bool :=
  match condition with
  | .textStart => before.isNone
  | .textEnd => after.isNone
  | .lineStart false => before.all (· = '\n')
  | .lineStart true => before.all (· = '\n') || (before = some '\r' && after != some '\n')
  | .lineEnd false => after.all (· = '\n')
  | .lineEnd true => after.all (· = '\r') || (after = some '\n' && before != some '\r')
  | .word edge _ => edge.holds (isWord before) (isWord after)

end Look

namespace Expression

def isVoid : Expression → Bool
  | .empty => true
  | .chars _ => false
  | .look _ => true
  | .sequence first second => first.isVoid && second.isVoid
  | .choice first second => first.isVoid && second.isVoid
  | .repeated _ most body => most = some 0 || body.isVoid

def times (least : Nat) (most : Option Nat) (body : Expression) : Expression :=
  let (least, most) :=
    if body.isVoid then (min least 1, some ((most.map (min 1)).getD 1)) else (least, most)
  if least = 0 ∧ most = some 0 then .empty
  else if least = 1 ∧ most = some 1 then body
  else .repeated least most body

def asksAnyScript : Expression → Bool
  | .empty => false
  | .chars _ => false
  | .look (.word _ anyScript) => anyScript
  | .look _ => false
  | .sequence first second => first.asksAnyScript || second.asksAnyScript
  | .choice first second => first.asksAnyScript || second.asksAnyScript
  | .repeated _ _ body => body.asksAnyScript

def stepSize : Nat := 32

def rangeSize : Nat := 8

def wideSize : Nat := 424

def forkSize : Nat := 40

def charsSize (set : CharSet) : Nat :=
  match set.merged 0x10FFFF with
  | [] => stepSize
  | [(first, last)] =>
    if first = last then stepSize * (Char.ofNat first).utf8Size
    else if last < 0x80 then 2 * stepSize + rangeSize
    else wideSize
  | ranges =>
    if CharSet.isAscii ranges then 2 * stepSize + rangeSize * ranges.length else wideSize

def size : Expression → Nat
  | .empty => stepSize
  | .chars set => charsSize set
  | .look _ => stepSize
  | .sequence first second => first.size + second.size
  | .choice first second => first.size + second.size + forkSize
  | .repeated least none body => body.size * max least 1 + forkSize
  | .repeated least (some most) body => body.size * most + forkSize * (most - least)

def merge (places more : List Nat) : List Nat := places ++ more.filter (!places.contains ·)

def within (step : List Nat → List Nat) : Nat → List Nat → List Nat → List Nat
  | 0, found, _ => found
  | count + 1, found, latest =>
    match (step latest).filter (!found.contains ·) with
    | [] => found
    | fresh => within step count (found ++ fresh) fresh

-- More steps than the text has characters lead nowhere else, because all but that many of them stay where they are.
def reach (text : Array Char) : Expression → List Nat → List Nat
  | .empty, places => places
  | .chars set, places =>
    (places.filter fun i => text[i]?.any fun c => set.contains c.toNat).map (· + 1)
  | .look condition, places =>
    places.filter fun i =>
      condition.holds (if i = 0 then none else text[i - 1]?) text[i]?
  | .sequence first second, places => second.reach text (first.reach text places)
  | .choice first second, places => merge (first.reach text places) (second.reach text places)
  | .repeated least most body, places =>
    let limit := text.size + 1
    let start := Nat.repeat (body.reach text) (min least limit) places
    let extra := (most.map fun most => min (most - least) limit).getD limit
    within (body.reach text) extra start start

def fits (e : Expression) (text : Array Char) : Bool :=
  !(e.reach text (List.range (text.size + 1))).isEmpty

end Expression

end Loom.Pattern
