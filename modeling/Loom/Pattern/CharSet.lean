set_option autoImplicit false

namespace Loom.Pattern

abbrev CharSet := List (Nat × Nat)

namespace CharSet

def contains (s : CharSet) (n : Nat) : Bool := s.any fun (first, last) => first ≤ n && n ≤ last

def gaps (limit start : Nat) : List (Nat × Nat) → CharSet
  | [] => if start ≤ limit then [(start, limit)] else []
  | (first, last) :: rest =>
    if start < first then (start, first - 1) :: gaps limit (max start (last + 1)) rest
    else gaps limit (max start (last + 1)) rest

def complement (limit : Nat) (s : CharSet) : CharSet :=
  gaps limit 0 (s.mergeSort fun a b => a.1 ≤ b.1)

def intersection (limit : Nat) (s t : CharSet) : CharSet :=
  complement limit (complement limit s ++ complement limit t)

def difference (limit : Nat) (s t : CharSet) : CharSet := intersection limit s (complement limit t)

def symmetricDifference (limit : Nat) (s t : CharSet) : CharSet :=
  difference limit s t ++ difference limit t s

def merged (limit : Nat) (s : CharSet) : CharSet := complement limit (complement limit s)

def isAscii (s : CharSet) : Bool := s.all (·.2 < 0x80)

def foldAscii (s : CharSet) : CharSet :=
  let lower := (intersection 0x7F s [('a'.toNat, 'z'.toNat)]).map fun (a, b) => (a - 32, b - 32)
  let upper := (intersection 0x7F s [('A'.toNat, 'Z'.toNat)]).map fun (a, b) => (a + 32, b + 32)
  s ++ lower ++ upper

def digit : CharSet := [('0'.toNat, '9'.toNat)]

def lower : CharSet := [('a'.toNat, 'z'.toNat)]

def upper : CharSet := [('A'.toNat, 'Z'.toNat)]

def word : CharSet := digit ++ lower ++ upper ++ [('_'.toNat, '_'.toNat)]

def space : CharSet := [(0x9, 0xD), (0x20, 0x20)]

def named? : String → Option CharSet
  | "alnum" => some (digit ++ lower ++ upper)
  | "alpha" => some (lower ++ upper)
  | "ascii" => some [(0, 0x7F)]
  | "blank" => some [(0x9, 0x9), (0x20, 0x20)]
  | "cntrl" => some [(0, 0x1F), (0x7F, 0x7F)]
  | "digit" => some digit
  | "graph" => some [(0x21, 0x7E)]
  | "lower" => some lower
  | "print" => some [(0x20, 0x7E)]
  | "punct" => some [(0x21, 0x2F), (0x3A, 0x40), (0x5B, 0x60), (0x7B, 0x7E)]
  | "space" => some space
  | "upper" => some upper
  | "word" => some word
  | "xdigit" => some (digit ++ [('a'.toNat, 'f'.toNat), ('A'.toNat, 'F'.toNat)])
  | _ => none

end CharSet

end Loom.Pattern
