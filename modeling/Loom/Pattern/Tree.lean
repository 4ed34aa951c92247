import Loom.Pattern.CharSet
import Loom.Pattern.Fault

set_option autoImplicit false

namespace Loom.Pattern

inductive Flag where
  | caseless
  | multiLine
  | dotAll
  | swapGreed
  | unicode
  | crlf
  | spaced
deriving DecidableEq, Repr

abbrev FlagChange := List (Flag × Bool)

structure Literal where
  span : Span
  char : Char
  isByte : Bool
deriving DecidableEq, Repr

inductive Shorthand where
  | digit
  | space
  | word
deriving DecidableEq, Repr

inductive WordEdge where
  | boundary
  | noBoundary
  | start
  | stop
  | startHalf
  | stopHalf
deriving DecidableEq, Repr

inductive Assertion where
  | lineStart
  | lineEnd
  | textStart
  | textEnd
  | word (edge : WordEdge)
deriving DecidableEq, Repr

inductive SetOperation where
  | intersection
  | difference
  | symmetricDifference
deriving DecidableEq, Repr

inductive ClassTree where
  | empty (span : Span)
  | literal (value : Literal)
  | range (span : Span) (first last : Literal)
  | named (span : Span) (chars : CharSet) (negated : Bool)
  | shorthand (span : Span) (kind : Shorthand) (negated : Bool)
  | property (span : Span) (name : List Char)
  | bracketed (span : Span) (negated : Bool) (body : ClassTree)
  | union (span : Span) (items : List ClassTree)
  | operation (span : Span) (kind : SetOperation) (lhs rhs : ClassTree)
deriving Inhabited

def ClassTree.span : ClassTree → Span
  | .empty span => span
  | .literal value => value.span
  | .range span _ _ => span
  | .named span _ _ => span
  | .shorthand span _ _ => span
  | .property span _ => span
  | .bracketed span _ _ => span
  | .union span _ => span
  | .operation span _ _ _ => span

inductive Tree where
  | empty (span : Span)
  | flags (span : Span) (change : FlagChange)
  | literal (value : Literal)
  | dot (span : Span)
  | assertion (span : Span) (kind : Assertion)
  | shorthand (span : Span) (kind : Shorthand) (negated : Bool)
  | property (span : Span) (name : List Char)
  | bracketed (span : Span) (negated : Bool) (body : ClassTree)
  | repetition (span : Span) (least : Nat) (most : Option Nat) (body : Tree)
  | group (span : Span) (change : FlagChange) (body : Tree)
  | alternation (span : Span) (branches : List Tree)
  | sequence (span : Span) (parts : List Tree)
deriving Inhabited

def Tree.span : Tree → Span
  | .empty span => span
  | .flags span _ => span
  | .literal value => value.span
  | .dot span => span
  | .assertion span _ => span
  | .shorthand span _ _ => span
  | .property span _ => span
  | .bracketed span _ _ => span
  | .repetition span _ _ _ => span
  | .group span _ _ => span
  | .alternation span _ => span
  | .sequence span _ => span

mutual

def ClassTree.tooDeep (room : Nat) : ClassTree → Option Span
  | .bracketed span _ body =>
    match room with
    | 0 => some span
    | room + 1 => body.tooDeep room
  | .union span items =>
    match room with
    | 0 => some span
    | room + 1 => ClassTree.anyTooDeep room items
  | .operation span _ lhs rhs =>
    match room with
    | 0 => some span
    | room + 1 => (lhs.tooDeep room).orElse fun _ => rhs.tooDeep room
  | _ => none

def ClassTree.anyTooDeep (room : Nat) : List ClassTree → Option Span
  | [] => none
  | item :: rest => (item.tooDeep room).orElse fun _ => ClassTree.anyTooDeep room rest

end

mutual

def Tree.tooDeep (room : Nat) : Tree → Option Span
  | .bracketed span _ body =>
    match room with
    | 0 => some span
    | room + 1 => body.tooDeep room
  | .repetition span _ _ body =>
    match room with
    | 0 => some span
    | room + 1 => body.tooDeep room
  | .group span _ body =>
    match room with
    | 0 => some span
    | room + 1 => body.tooDeep room
  | .alternation span branches =>
    match room with
    | 0 => some span
    | room + 1 => Tree.anyTooDeep room branches
  | .sequence span parts =>
    match room with
    | 0 => some span
    | room + 1 => Tree.anyTooDeep room parts
  | _ => none

def Tree.anyTooDeep (room : Nat) : List Tree → Option Span
  | [] => none
  | item :: rest => (item.tooDeep room).orElse fun _ => Tree.anyTooDeep room rest

end

end Loom.Pattern
