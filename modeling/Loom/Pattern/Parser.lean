import Loom.Pattern.Bracket

set_option autoImplicit false

namespace Loom.Pattern

namespace Parse

def isNameSign (isFirst : Bool) (c : Char) : Bool :=
  c = '_' || c.isAlpha || 0x80 ≤ c.toNat
    || (!isFirst && (c.isDigit || c = '.' || c = '[' || c = ']'))

def groupName : Parse Unit := do
  let start ← rest
  let name := start.takeWhile (· != '>')
  match name.zipIdx.find? fun (c, i) => !isNameSign (i == 0) c with
  | some (_, i) => fail .groupNameInvalid (.next (start.drop i))
  | none =>
    match start.drop name.length with
    | [] => fail .groupNameUnfinished (.place [])
    | behind =>
      let span := Span.between start behind
      if name = [] then fail .groupNameEmpty span
      match (← get).names.find? (·.1 = name) with
      | some (_, earlier) => throw ⟨.groupNameTwice, span, some earlier⟩
      | none => modify fun p => { p with rest := behind.tail, names := p.names ++ [(name, span)] }

def flag? : Char → Option Flag
  | 'i' => some .caseless
  | 'm' => some .multiLine
  | 's' => some .dotAll
  | 'U' => some .swapGreed
  | 'u' => some .unicode
  | 'R' => some .crlf
  | 'x' => some .spaced
  | _ => none

def flagItems : Nat → List (Option Flag × Span) → Parse (List (Option Flag × Span))
  | 0, items => return items
  | fuel + 1, items => do
    match ← rest with
    | [] => fail .flagUnfinished (.place [])
    | c :: cs =>
      let span := Span.next (c :: cs)
      if c = ':' ∨ c = ')' then return items
      else if c != '-' && (flag? c).isNone then fail .flagUnknown span
      else
        let item := flag? c
        match items.find? (·.1 = item) with
        | some (_, earlier) =>
          throw ⟨if item.isNone then .flagNegationTwice else .flagTwice, span, some earlier⟩
        | none =>
          advance
          flagItems fuel (items ++ [(item, span)])

def flagChange : Parse FlagChange := do
  let items ← flagItems ((← rest).length + 1) []
  match items.getLast? with
  | some (none, span) => fail .flagNegationDangling span
  | _ =>
    let raised := items.takeWhile (·.1.isSome)
    return raised.filterMap (fun item => item.1.map (·, true))
      ++ (items.drop raised.length).filterMap (fun item => item.1.map (·, false))

def setSpaced (change : FlagChange) : Parse Unit :=
  modify fun p => { p with spaced := (change.lookup .spaced).getD p.spaced }

def count : Parse (Nat × Option Nat) := do
  let start ← rest
  let unclosed : Parse Unit := do
    if (← rest) = [] then fail .countUnclosed (.between start [])
  step
  unclosed
  let least ← decimal
  unclosed
  let bounds ←
    if (← rest).head? = some ',' then do
      step
      unclosed
      let least ← MonadExcept.ofExcept least
      if (← rest).head? = some '\x7d' then pure (least, none)
      else do
        let most ← MonadExcept.ofExcept (← decimal)
        pure (least, some most)
    else do
      let least ← MonadExcept.ofExcept least
      pure (least, some least)
  if (← rest).head? ≠ some '\x7d' then fail .countUnclosed (.between start (← rest))
  step
  if (← rest).head? = some '?' then advance
  if bounds.2.any (· < bounds.1) then fail .countInvalid (.between start (← rest))
  return bounds

def operator : Parse (Nat × Option Nat) := do
  let simple (bounds : Nat × Option Nat) : Parse (Nat × Option Nat) := do
    advance
    if (← rest).head? = some '?' then advance
    return bounds
  match (← rest).head? with
  | some '?' => simple (0, some 1)
  | some '*' => simple (0, none)
  | some '+' => simple (1, none)
  | _ => count

def isOperator (c : Char) : Bool := c = '?' || c = '*' || c = '+' || c = '\x7b'

def repeated (parts : List Tree) : Parse (List Tree) := do
  match parts.getLast? with
  | none => fail .repetitionMissing (.place (← rest))
  | some (.flags ..) => fail .repetitionMissing (.place (← rest))
  | some body =>
    let (least, most) ← operator
    return parts.dropLast
      ++ [.repetition (.through body.span (.place (← rest))) least most body]

def sequence (start stop : List Char) : List Tree → Tree
  | [] => .empty (.between start stop)
  | [part] => part
  | parts => .sequence (.between start stop) parts

mutual

def group : Nat → Parse Tree
  | 0 => do fail .groupUnclosed (.next (← rest))
  | fuel + 1 => do
    let start ← rest
    let opening := Span.next start
    let spaced := (← get).spaced
    let body (change : FlagChange) : Parse Tree := do
      let inner ← rest
      let tree ← branches fuel (some opening) inner [] inner []
      advance
      modify fun p => { p with spaced := spaced }
      return .group (.between start (← rest)) change tree
    step
    match ← rest with
    | '?' :: '=' :: cs => fail .lookAround (.between start cs)
    | '?' :: '!' :: cs => fail .lookAround (.between start cs)
    | '?' :: '<' :: '=' :: cs => fail .lookAround (.between start cs)
    | '?' :: '<' :: '!' :: cs => fail .lookAround (.between start cs)
    | '?' :: 'P' :: '<' :: cs =>
      moveTo cs
      groupName
      body []
    | '?' :: '<' :: cs =>
      moveTo cs
      groupName
      body []
    | '?' :: cs =>
      if cs = [] then fail .groupUnclosed opening
      moveTo cs
      let change ← flagChange
      let behind ← rest
      advance
      setSpaced change
      if behind.head? = some ':' then body change
      else
        if change = [] then fail .repetitionMissing (.place ('?' :: cs))
        return .flags (.between start (← rest)) change
    | _ => body []

-- Branches up to the end of the group that `opening` starts, or of the pattern. `outer` is where the first branch
-- starts, `start` where this one does, and `parts` is what it holds so far.
def branches : Nat → Option Span → List Char → List Tree → List Char → List Tree → Parse Tree
  | 0, opening, _, _, start, _ => fail .groupUnclosed (opening.getD (.place start))
  | fuel + 1, opening, outer, before, start, parts => do
    skipBlanks
    let cs ← rest
    let all := before ++ [sequence start cs parts]
    let whole := match all with
      | [branch] => branch
      | _ => .alternation (.between outer cs) all
    match cs, opening with
    | [], some span => fail .groupUnclosed span
    | [], none => return whole
    | ')' :: _, none => fail .groupUnopened (.next cs)
    | ')' :: _, some _ => return whole
    | '|' :: _, _ =>
      advance
      branches fuel opening outer all (← rest) []
    | '(' :: _, _ =>
      let part ← group fuel
      branches fuel opening outer before start (parts ++ [part])
    | '[' :: _, _ =>
      let (span, negated, body) ← bracketed fuel
      branches fuel opening outer before start (parts ++ [.bracketed span negated body])
    | c :: _, _ =>
      if isOperator c then
        let parts ← repeated parts
        branches fuel opening outer before start parts
      else
        let part ← atom
        branches fuel opening outer before start (parts ++ [part.tree])

end

end Parse

def Tree.ofPattern (pattern : List Char) : Except Fault Tree := do
  let read := Parse.branches (2 * pattern.length + 2) none pattern [] pattern []
  let (tree, _) ← read.run ⟨pattern, false, []⟩
  match tree.tooDeep maxNesting with
  | some span => .error ⟨.nestedTooDeep, span, none⟩
  | none => .ok tree

end Loom.Pattern
