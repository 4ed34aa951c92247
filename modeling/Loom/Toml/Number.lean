set_option autoImplicit false

namespace Loom.Toml

def isDigit (c : Char) : Bool := '0' ≤ c && c ≤ '9'

def isOctal (c : Char) : Bool := '0' ≤ c && c ≤ '7'

def isBinary (c : Char) : Bool := c = '0' || c = '1'

def isHex (c : Char) : Bool := isDigit c || ('a' ≤ c && c ≤ 'f') || ('A' ≤ c && c ≤ 'F')

def digitValue (c : Char) : Nat :=
  if isDigit c then c.toNat - '0'.toNat else c.toLower.toNat - 'a'.toNat + 10

def ofDigits (base : Nat) (digits : List Char) : Nat :=
  digits.foldl (fun n c => n * base + digitValue c) 0

def moreDigits (isDigit : Char → Bool) : List Char → List Char × List Char
  | [] => ([], [])
  | [c] => if isDigit c then ([c], []) else ([], [c])
  | c :: d :: rest =>
    if isDigit c then
      let (digits, rest) := moreDigits isDigit (d :: rest)
      (c :: digits, rest)
    else if c = '_' ∧ isDigit d then
      let (digits, rest) := moreDigits isDigit rest
      (d :: digits, rest)
    else ([], c :: d :: rest)

def digits? (isDigit : Char → Bool) : List Char → Option (List Char × List Char)
  | [] => none
  | c :: rest =>
    if isDigit c then
      let (digits, rest) := moreDigits isDigit rest
      some (c :: digits, rest)
    else none

def sign : List Char → Bool × List Char
  | '+' :: rest => (false, rest)
  | '-' :: rest => (true, rest)
  | cs => (false, cs)

def whole? : List Char → Option (List Char × List Char)
  | '0' :: rest => some (['0'], rest)
  | cs => digits? isDigit cs

def fraction? : List Char → Option (Option (List Char) × List Char)
  | '.' :: rest => (digits? isDigit rest).map fun (digits, rest) => (some digits, rest)
  | cs => some (none, cs)

def exponent? : List Char → Option (Option Int × List Char)
  | [] => some (none, [])
  | e :: rest =>
    if e = 'e' ∨ e = 'E' then do
      let (negative, rest) := sign rest
      let (digits, rest) ← digits? isDigit rest
      let n : Int := ofDigits 10 digits
      return (some (if negative then -n else n), rest)
    else some (none, e :: rest)

def fitsWord (negative : Bool) (n : Nat) : Bool := if negative then n ≤ Nat.pow 2 63 else n < Nat.pow 2 63

-- From here on a double is infinite: half a unit above the largest finite one.
def infinityBound : Nat := Nat.pow 2 1024 - Nat.pow 2 970

def isInfinite (coefficient : Nat) (exponent : Int) : Bool :=
  let order : Int := (Nat.toDigits 10 coefficient).length + exponent
  if coefficient = 0 ∨ order < 309 then false
  else if 310 < order then true
  else if 0 ≤ exponent then infinityBound ≤ coefficient * Nat.pow 10 exponent.toNat
  else infinityBound * Nat.pow 10 (-exponent).toNat ≤ coefficient

def based? (base : Nat) (isDigit : Char → Bool) (cs : List Char) : Option (List Char) := do
  let (digits, rest) ← digits? isDigit cs
  if fitsWord false (ofDigits base digits) then return rest else none

def decimal? (negative : Bool) (cs : List Char) : Option (List Char) := do
  let (whole, cs) ← whole? cs
  let (fraction, cs) ← fraction? cs
  let (exponent, rest) ← exponent? cs
  if fraction.isNone ∧ exponent.isNone then
    if fitsWord negative (ofDigits 10 whole) then return rest else none
  else
    let fraction := fraction.getD []
    let exponent := exponent.getD 0 - fraction.length
    if !negative && isInfinite (ofDigits 10 (whole ++ fraction)) exponent then none else return rest

def number? : List Char → Option (List Char)
  | '0' :: 'x' :: rest => based? 16 isHex rest
  | '0' :: 'o' :: rest => based? 8 isOctal rest
  | '0' :: 'b' :: rest => based? 2 isBinary rest
  | cs =>
    match sign cs with
    | (_, 'i' :: 'n' :: 'f' :: rest) => some rest
    | (_, 'n' :: 'a' :: 'n' :: rest) => some rest
    | (negative, cs) => decimal? negative cs

end Loom.Toml
