import Loom.Json.Parser
import Loom.Toml
import Loom.Toml.Moment

set_option autoImplicit false

namespace Loom.Toml

def maxDepth : Nat := 79

def isSpace (c : Char) : Bool := c = ' ' || c = '\t'

def skipSpace (cs : List Char) : List Char := cs.dropWhile isSpace

def isVisible (c : Char) : Bool := c = '\t' || (0x20 ≤ c.toNat && c.toNat != 0x7F)

def newline? : List Char → Option (List Char)
  | '\n' :: rest => some rest
  | '\r' :: '\n' :: rest => some rest
  | _ => none

def skipComment : List Char → List Char
  | '#' :: rest => rest.dropWhile isVisible
  | cs => cs

def lineEnd? (cs : List Char) : Option (List Char) :=
  match skipComment (skipSpace cs) with
  | [] => some []
  | cs => newline? cs

def skipLines : Nat → List Char → Option (List Char)
  | 0, _ => none
  | fuel + 1, cs =>
    match skipSpace cs with
    | '#' :: rest =>
      match rest.dropWhile isVisible with
      | [] => some []
      | cs => (newline? cs).bind (skipLines fuel)
    | cs =>
      match newline? cs with
      | some rest => skipLines fuel rest
      | none => some cs

def charOfHex? (digits : List Char) : Option Char := do
  let values ← digits.mapM Json.hexValue?
  let n := values.foldl (fun n d => n * 16 + d) 0
  if n.isValidChar then some (Char.ofNat n) else none

def escape? : List Char → Option (Char × List Char)
  | 'b' :: rest => some ('\x08', rest)
  | 't' :: rest => some ('\t', rest)
  | 'n' :: rest => some ('\n', rest)
  | 'f' :: rest => some ('\x0c', rest)
  | 'r' :: rest => some ('\r', rest)
  | '\x22' :: rest => some ('\x22', rest)
  | '\\' :: rest => some ('\\', rest)
  | 'u' :: a :: b :: c :: d :: rest => do return (← charOfHex? [a, b, c, d], rest)
  | 'U' :: a :: b :: c :: d :: e :: f :: g :: h :: rest => do
    return (← charOfHex? [a, b, c, d, e, f, g, h], rest)
  | _ => none

def basicString : Nat → List Char → Option (List Char × List Char)
  | 0, _ => none
  | _ + 1, [] => none
  | _ + 1, '\x22' :: rest => some ([], rest)
  | fuel + 1, '\\' :: rest => do
    let (c, rest) ← escape? rest
    let (tail, rest) ← basicString fuel rest
    return (c :: tail, rest)
  | fuel + 1, c :: rest =>
    if isVisible c then do
      let (tail, rest) ← basicString fuel rest
      return (c :: tail, rest)
    else none

def literalString : List Char → Option (List Char × List Char)
  | [] => none
  | c :: rest =>
    if c = '\x27' then some ([], rest)
    else if isVisible c then do
      let (tail, rest) ← literalString rest
      return (c :: tail, rest)
    else none

-- Three quotes close a string over several lines, and up to two in front of them belong to it.
def closing (quote : Char) (cs : List Char) : List Char × Option (List Char) :=
  let run := (cs.takeWhile (· = quote)).length
  if run < 3 then (List.replicate run quote, none)
  else (List.replicate (min (run - 3) 2) quote, some (cs.drop (min run 5)))

def lineContinuation? (cs : List Char) : Option (List Char) :=
  (newline? (skipSpace cs)).map fun rest => skipBreaks rest.length rest
where
  skipBreaks : Nat → List Char → List Char
    | 0, cs => skipSpace cs
    | fuel + 1, cs =>
      match newline? (skipSpace cs) with
      | some rest => skipBreaks fuel rest
      | none => skipSpace cs

def longString (quote : Char) (escapes : Bool) : Nat → List Char → Option (List Char × List Char)
  | 0, _ => none
  | _ + 1, [] => none
  | fuel + 1, c :: rest =>
    if c = quote then
      match closing quote (c :: rest) with
      | (front, some rest) => some (front, rest)
      | (front, none) => do
        let (tail, rest) ← longString quote escapes fuel ((c :: rest).drop front.length)
        return (front ++ tail, rest)
    else if c = '\\' ∧ escapes then
      match lineContinuation? rest with
      | some rest => longString quote escapes fuel rest
      | none => do
        let (c, rest) ← escape? rest
        let (tail, rest) ← longString quote escapes fuel rest
        return (c :: tail, rest)
    else
      match newline? (c :: rest) with
      | some rest => do
        let (tail, rest) ← longString quote escapes fuel rest
        return ('\n' :: tail, rest)
      | none =>
        if isVisible c then do
          let (tail, rest) ← longString quote escapes fuel rest
          return (c :: tail, rest)
        else none

def dropFirstBreak (cs : List Char) : List Char := (newline? cs).getD cs

def string? : List Char → Option (List Char × List Char)
  | '\x22' :: '\x22' :: '\x22' :: rest => longString '\x22' true (rest.length + 1) (dropFirstBreak rest)
  | '\x22' :: rest => basicString (rest.length + 1) rest
  | '\x27' :: '\x27' :: '\x27' :: rest => longString '\x27' false (rest.length + 1) (dropFirstBreak rest)
  | '\x27' :: rest => literalString rest
  | _ => none

def isBare (c : Char) : Bool :=
  ('a' ≤ c && c ≤ 'z') || ('A' ≤ c && c ≤ 'Z') || ('0' ≤ c && c ≤ '9') || c = '-' || c = '_'

def simpleKey? : List Char → Option (String × List Char)
  | '\x22' :: rest => do
    let (key, rest) ← basicString (rest.length + 1) rest
    return (String.ofList key, rest)
  | '\x27' :: rest => do
    let (key, rest) ← literalString rest
    return (String.ofList key, rest)
  | cs =>
    match cs.takeWhile isBare with
    | [] => none
    | key => some (String.ofList key, cs.dropWhile isBare)

def keyParts? : Nat → List Char → Option ((List String × String) × List Char)
  | 0, _ => none
  | fuel + 1, cs => do
    let (key, rest) ← simpleKey? (skipSpace cs)
    match skipSpace rest with
    | '.' :: rest => do
      let ((path, last), rest) ← keyParts? fuel rest
      return ((key :: path, last), rest)
    | rest => return (([], key), rest)

def key? (cs : List Char) : Option ((List String × String) × List Char) := do
  let ((path, last), rest) ← keyParts? (cs.length + 1) cs
  if path.length < maxDepth then return ((path, last), rest) else none

def ofPairs (pairs : List ((List String × String) × Toml)) : Option Toml := do
  let slots ← pairs.foldlM (fun slots ((path, key), value) => define path key value slots) []
  return .table (closeAll slots)

def scalar? (cs : List Char) : Option (Toml × List Char) := do
  let rest ← moment? cs <|> number? cs
  return (.scalar (cs.take (cs.length - rest.length)), rest)

mutual

def value? : Nat → Nat → List Char → Option (Toml × List Char)
  | 0, _, _ => none
  | fuel + 1, depth, cs =>
    match depth, cs with
    | _, 't' :: 'r' :: 'u' :: 'e' :: rest => some (.switch true, rest)
    | _, 'f' :: 'a' :: 'l' :: 's' :: 'e' :: rest => some (.switch false, rest)
    | depth + 1, '[' :: rest => do
      let (items, rest) ← items? fuel depth rest
      return (.list items, rest)
    | depth + 1, '\x7b' :: rest =>
      match skipSpace rest with
      | '\x7d' :: rest => some (.table [], rest)
      | rest => do
        let (pairs, rest) ← pairs? fuel depth rest
        return (← ofPairs pairs, rest)
    | _, cs =>
      match string? cs with
      | some (s, rest) => some (.text (String.ofList s), rest)
      | none => scalar? cs

def items? : Nat → Nat → List Char → Option (List Toml × List Char)
  | 0, _, _ => none
  | fuel + 1, depth, cs => do
    match ← skipLines (cs.length + 1) cs with
    | ']' :: rest => return ([], rest)
    | cs => do
      let (item, rest) ← value? fuel depth cs
      match ← skipLines (rest.length + 1) rest with
      | ',' :: rest => do
        let (items, rest) ← items? fuel depth rest
        return (item :: items, rest)
      | ']' :: rest => return ([item], rest)
      | _ => none

def pairs? : Nat → Nat → List Char → Option (List ((List String × String) × Toml) × List Char)
  | 0, _, _ => none
  | fuel + 1, depth, cs => do
    let (key, rest) ← key? cs
    match rest with
    | '=' :: rest => do
      let (value, rest) ← value? fuel depth (skipSpace rest)
      match skipSpace rest with
      | ',' :: rest => do
        let (pairs, rest) ← pairs? fuel depth rest
        return ((key, value) :: pairs, rest)
      | '\x7d' :: rest => return ([(key, value)], rest)
      | _ => none
    | _ => none

end

def header? : List Char → Option (Statement × List Char)
  | '[' :: rest => do
    let ((path, key), rest) ← key? rest
    match rest with
    | ']' :: ']' :: rest => return (.listHeader path key, rest)
    | _ => none
  | cs => do
    let ((path, key), rest) ← key? cs
    match rest with
    | ']' :: rest => return (.header path key, rest)
    | _ => none

def statement? : List Char → Option (Statement × List Char)
  | '[' :: rest => header? rest
  | cs => do
    let ((path, key), rest) ← key? cs
    match rest with
    | '=' :: rest => do
      let rest := skipSpace rest
      let (value, rest) ← value? (2 * rest.length + 2) maxDepth rest
      return (.assign path key value, rest)
    | _ => none

def statements? : Nat → List Char → Option (List Statement)
  | 0, _ => none
  | fuel + 1, cs => do
    match ← skipLines (cs.length + 1) cs with
    | [] => return []
    | cs => do
      let (statement, rest) ← statement? cs
      let rest ← lineEnd? rest
      return statement :: (← statements? fuel rest)

def parse (s : String) : Option Toml := do
  let cs := match s.toList with
    | '\uFEFF' :: rest => rest
    | cs => cs
  ofStatements (← statements? (cs.length + 1) cs)

end Loom.Toml
