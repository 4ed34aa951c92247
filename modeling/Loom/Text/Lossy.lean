import Loom.Bytes

set_option autoImplicit false

/-! Every longest start of a character that is not completed, and every byte that starts none, shows as the
replacement character. -/
namespace Loom.Text

def replacement : Char := '\uFFFD'

structure Started where
  need : Nat
  low : UInt8
  high : UInt8
  bits : Nat

def lead (b : UInt8) : Char ⊕ Started :=
  if b < 0x80 then .inl (Char.ofNat b.toNat)
  else if b < 0xC2 then .inl replacement
  else if b < 0xE0 then .inr ⟨1, 0x80, 0xBF, b.toNat - 0xC0⟩
  else if b < 0xF0 then
    .inr ⟨2, if b = 0xE0 then 0xA0 else 0x80, if b = 0xED then 0x9F else 0xBF, b.toNat - 0xE0⟩
  else if b < 0xF5 then
    .inr ⟨3, if b = 0xF0 then 0x90 else 0x80, if b = 0xF4 then 0x8F else 0xBF, b.toNat - 0xF0⟩
  else .inl replacement

def lossyFrom : Option Started → Bytes → List Char
  | none, [] => []
  | some _, [] => [replacement]
  | none, b :: rest =>
    match lead b with
    | .inl c => c :: lossyFrom none rest
    | .inr started => lossyFrom (some started) rest
  | some s, b :: rest =>
    if s.low ≤ b ∧ b ≤ s.high then
      let bits := s.bits * 64 + (b.toNat - 0x80)
      if s.need = 1 then Char.ofNat bits :: lossyFrom none rest
      else lossyFrom (some ⟨s.need - 1, 0x80, 0xBF, bits⟩) rest
    else
      match lead b with
      | .inl c => replacement :: c :: lossyFrom none rest
      | .inr started => replacement :: lossyFrom (some started) rest

def lossy (bytes : Bytes) : String := String.ofList (lossyFrom none bytes)

end Loom.Text
