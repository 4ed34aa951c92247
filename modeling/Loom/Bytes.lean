set_option autoImplicit false

namespace Loom

abbrev Bytes := List UInt8

namespace Bytes

def ofWord (w : UInt32) : Bytes :=
  [w.toUInt8, (w >>> 8).toUInt8, (w >>> 16).toUInt8, (w >>> 24).toUInt8]

def toWord (a b c d : UInt8) : UInt32 :=
  a.toUInt32 ||| (b.toUInt32 <<< 8) ||| (c.toUInt32 <<< 16) ||| (d.toUInt32 <<< 24)

def ofText (s : String) : Bytes := s.toByteArray.data.toList

def toText? (bs : Bytes) : Option String := String.fromUTF8? ⟨bs.toArray⟩

def splitExact : Nat → Bytes → Option (Bytes × Bytes)
  | 0, rest => some ([], rest)
  | _ + 1, [] => none
  | n + 1, b :: rest => (splitExact n rest).map fun (front, back) => (b :: front, back)

def atLeast : Nat → Bytes → Bool
  | 0, _ => true
  | _ + 1, [] => false
  | n + 1, _ :: rest => atLeast n rest

theorem at_least_iff (n : Nat) (bs : Bytes) : atLeast n bs = true ↔ n ≤ bs.length := by
  induction n generalizing bs with
  | zero => simp [atLeast]
  | succ n ih => cases bs <;> simp [atLeast, ih]

theorem split_exact_eq (n : Nat) (bs : Bytes) :
    splitExact n bs = if n ≤ bs.length then some (bs.take n, bs.drop n) else none := by
  induction n generalizing bs with
  | zero => simp [splitExact]
  | succ n ih =>
      cases bs with
      | nil => simp [splitExact]
      | cons b rest => by_cases fits : n ≤ rest.length <;> simp [splitExact, ih, fits]

end Bytes

end Loom
