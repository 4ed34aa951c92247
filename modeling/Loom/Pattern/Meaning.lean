import Loom.Pattern.Expression
import Loom.Pattern.Fault

set_option autoImplicit false

/-! Digits, blanks and words are known of ASCII: to ask for those of all scripts is a fault. -/
namespace Loom.Pattern

structure Mode where
  caseless : Bool
  multiLine : Bool
  dotAll : Bool
  anyScript : Bool
  crlf : Bool
deriving DecidableEq, Repr

namespace Mode

def initial : Mode := ⟨false, false, false, true, false⟩

def set (mode : Mode) (flag : Flag) (value : Bool) : Mode :=
  match flag with
  | .caseless => { mode with caseless := value }
  | .multiLine => { mode with multiLine := value }
  | .dotAll => { mode with dotAll := value }
  | .unicode => { mode with anyScript := value }
  | .crlf => { mode with crlf := value }
  | .swapGreed => mode
  | .spaced => mode

def change (mode : Mode) (flags : FlagChange) : Mode :=
  flags.foldl (fun mode (flag, value) => mode.set flag value) mode

end Mode

def maxChar : Nat := 0x10FFFF

def refuse {α : Type} (cause : Cause) (span : Span) : Except Fault α := .error ⟨cause, span, none⟩

def plainName (name : List Char) : List Char :=
  let lower := name.map Char.toLower
  let body := match lower with
    | 'i' :: 's' :: rest => rest
    | cs => cs
  body.filter fun c => c.toNat < 0x80 && c != ' ' && c != '_' && c != '-'

def propertyCause (name : List Char) : Cause :=
  if plainName name ∈ ["cf".toList, "sc".toList, "lc".toList] then .propertyValueUnknown
  else .propertyUnknown

def property (mode : Mode) (span : Span) (name : List Char) : Except Fault CharSet :=
  refuse (if mode.anyScript then propertyCause name else .unicodeNotAllowed) span

def Shorthand.set : Shorthand → CharSet
  | .digit => CharSet.digit
  | .space => CharSet.space
  | .word => CharSet.word

def shorthand (mode : Mode) (span : Span) (kind : Shorthand) (negated : Bool) :
    Except Fault CharSet :=
  if mode.anyScript then refuse .unicodeClass span
  else if negated then refuse .invalidUtf8 span
  else .ok kind.set

def fold (mode : Mode) (span : Span) (set : CharSet) : Except Fault CharSet :=
  if !mode.caseless then .ok set
  else if !mode.anyScript then .ok set.foldAscii
  else if set = [] then .ok []
  else refuse .unicodeCase span

def close (mode : Mode) (span : Span) (negated : Bool) (set : CharSet) : Except Fault CharSet := do
  let set ← fold mode span set
  if !negated then return set
  else if mode.anyScript then return set.complement maxChar
  else refuse .invalidUtf8 span

def checkByte (mode : Mode) (value : Literal) : Except Fault Unit :=
  if !mode.anyScript ∧ value.isByte ∧ 0x80 ≤ value.char.toNat then refuse .invalidUtf8 value.span
  else .ok ()

def classChar (mode : Mode) (value : Literal) : Except Fault Nat := do
  checkByte mode value
  if !mode.anyScript ∧ 0x80 ≤ value.char.toNat then refuse .unicodeNotAllowed value.span
  return value.char.toNat

def SetOperation.apply : SetOperation → CharSet → CharSet → CharSet
  | .intersection => CharSet.intersection maxChar
  | .difference => CharSet.difference maxChar
  | .symmetricDifference => CharSet.symmetricDifference maxChar

mutual

def ClassTree.set (mode : Mode) : ClassTree → Except Fault CharSet
  | .empty _ => .ok []
  | .literal value => do
    let n ← classChar mode value
    return [(n, n)]
  | .range _ first last => do
    return [(← classChar mode first, ← classChar mode last)]
  | .named span chars negated => close mode span negated chars
  | .shorthand span kind negated => Pattern.shorthand mode span kind negated
  | .property span name => Pattern.property mode span name
  | .bracketed span negated body => do
    close mode span negated (← body.set mode)
  | .union _ items => ClassTree.setOfAll mode items
  | .operation _ kind lhs rhs => do
    let left ← lhs.set mode
    let right ← rhs.set mode
    let right ← fold mode rhs.span right
    let left ← fold mode lhs.span left
    return kind.apply left right

def ClassTree.setOfAll (mode : Mode) : List ClassTree → Except Fault CharSet
  | [] => .ok []
  | item :: rest => do
    let set ← item.set mode
    return set ++ (← ClassTree.setOfAll mode rest)

end

def literal (mode : Mode) (value : Literal) : Except Fault Expression := do
  checkByte mode value
  let n := value.char.toNat
  return .chars (← fold mode value.span [(n, n)])

def dot (mode : Mode) (span : Span) : Except Fault Expression :=
  if !mode.anyScript then refuse .invalidUtf8 span
  else
    let ends : CharSet :=
      if mode.dotAll then [] else if mode.crlf then [(0xA, 0xA), (0xD, 0xD)] else [(0xA, 0xA)]
    .ok (.chars (ends.complement maxChar))

def assertion (mode : Mode) : Assertion → Look
  | .lineStart => if mode.multiLine then .lineStart mode.crlf else .textStart
  | .lineEnd => if mode.multiLine then .lineEnd mode.crlf else .textEnd
  | .textStart => .textStart
  | .textEnd => .textEnd
  | .word edge => .word edge mode.anyScript

mutual

def Tree.meaning (mode : Mode) : Tree → Except Fault (Expression × Mode)
  | .empty _ => .ok (.empty, mode)
  | .flags _ change => .ok (.empty, mode.change change)
  | .literal value => do return (← Pattern.literal mode value, mode)
  | .dot span => do return (← Pattern.dot mode span, mode)
  | .assertion _ kind => .ok (.look (Pattern.assertion mode kind), mode)
  | .shorthand span kind negated => do
    return (.chars (← Pattern.shorthand mode span kind negated), mode)
  | .property span name => do return (.chars (← Pattern.property mode span name), mode)
  | .bracketed span negated body => do
    return (.chars (← close mode span negated (← body.set mode)), mode)
  | .repetition _ least most body => do
    let (e, mode) ← body.meaning mode
    return (e.times least most, mode)
  | .group _ change body => do
    return ((← body.meaning (mode.change change)).1, mode)
  | .alternation _ branches => Tree.choiceMeaning mode branches
  | .sequence _ parts => Tree.sequenceMeaning mode parts

def Tree.sequenceMeaning (mode : Mode) : List Tree → Except Fault (Expression × Mode)
  | [] => .ok (.empty, mode)
  | [part] => part.meaning mode
  | part :: rest => do
    let (first, mode) ← part.meaning mode
    let (second, mode) ← Tree.sequenceMeaning mode rest
    return (.sequence first second, mode)

def Tree.choiceMeaning (mode : Mode) : List Tree → Except Fault (Expression × Mode)
  | [] => .ok (.chars [], mode)
  | [branch] => branch.meaning mode
  | branch :: rest => do
    let (first, mode) ← branch.meaning mode
    let (second, mode) ← Tree.choiceMeaning mode rest
    return (.choice first second, mode)

end

end Loom.Pattern
