import Loom.Toml.Number

set_option autoImplicit false

namespace Loom.Toml

def pair? (low high : Nat) : List Char → Option (Nat × List Char)
  | a :: b :: rest =>
    let n := ofDigits 10 [a, b]
    if isDigit a && isDigit b && low ≤ n && n ≤ high then some (n, rest) else none
  | _ => none

def year? : List Char → Option (Nat × List Char)
  | a :: b :: c :: d :: rest =>
    if [a, b, c, d].all isDigit then some (ofDigits 10 [a, b, c, d], rest) else none
  | _ => none

def expect? (c : Char) : List Char → Option (List Char)
  | [] => none
  | d :: rest => if c = d then some rest else none

def isLeap (year : Nat) : Bool := year % 4 = 0 && (year % 100 != 0 || year % 400 = 0)

def daysIn (year month : Nat) : Nat :=
  if month = 2 then if isLeap year then 29 else 28
  else if [4, 6, 9, 11].contains month then 30
  else 31

def date? (cs : List Char) : Option (List Char) := do
  let (year, cs) ← year? cs
  let (month, cs) ← pair? 1 12 (← expect? '-' cs)
  let (_, rest) ← pair? 1 (daysIn year month) (← expect? '-' cs)
  return rest

def skipSecondPart : List Char → List Char
  | '.' :: c :: rest => if isDigit c then rest.dropWhile isDigit else '.' :: c :: rest
  | cs => cs

def time? (cs : List Char) : Option (List Char) := do
  let (_, cs) ← pair? 0 23 cs
  let (_, cs) ← pair? 0 59 (← expect? ':' cs)
  let (_, cs) ← pair? 0 60 (← expect? ':' cs)
  return skipSecondPart cs

def offset? : List Char → Option (List Char)
  | [] => none
  | c :: rest =>
    if c = 'Z' ∨ c = 'z' then some rest
    else if c = '+' ∨ c = '-' then do
      let (_, cs) ← pair? 0 23 rest
      let (_, rest) ← pair? 0 59 (← expect? ':' cs)
      return rest
    else none

def skipTime : List Char → List Char
  | [] => []
  | c :: rest =>
    if c = 'T' ∨ c = 't' ∨ c = ' ' then
      match time? rest with
      | some rest => (offset? rest).getD rest
      | none => c :: rest
    else c :: rest

def moment? (cs : List Char) : Option (List Char) :=
  match date? cs with
  | some rest => some (skipTime rest)
  | none => time? cs

end Loom.Toml
