import Loom.Bytes.Field
import Mathlib.Algebra.Group.Nat.Defs

set_option autoImplicit false

namespace Loom.Bytes

theorem to_nat_to_word (a b c d : UInt8) :
    (toWord a b c d).toNat = a.toNat + 2 ^ 8 * b.toNat + 2 ^ 16 * c.toNat + 2 ^ 24 * d.toNat := by
  have aBound := a.toNat_lt
  have bBound := b.toNat_lt
  have cBound := c.toNat_lt
  have dBound := d.toNat_lt
  have bShift : b.toNat * 2 ^ 8 % 2 ^ 32 = 2 ^ 8 * b.toNat := by
    rw [Nat.mul_comm, Nat.mod_eq_of_lt (by omega)]
  have cShift : c.toNat * 2 ^ 16 % 2 ^ 32 = 2 ^ 16 * c.toNat := by
    rw [Nat.mul_comm, Nat.mod_eq_of_lt (by omega)]
  have dShift : d.toNat * 2 ^ 24 % 2 ^ 32 = 2 ^ 24 * d.toNat := by
    rw [Nat.mul_comm, Nat.mod_eq_of_lt (by omega)]
  simp only [toWord, UInt32.toNat_or, UInt32.toNat_shiftLeft, UInt8.toNat_toUInt32, Nat.shiftLeft_eq,
    UInt32.reduceToNat, Nat.reduceMod]
  rw [bShift, cShift, dShift]
  rw [Nat.or_comm a.toNat, ← Nat.two_pow_add_eq_or_of_lt (by omega)]
  rw [Nat.or_comm _ (2 ^ 16 * c.toNat), ← Nat.two_pow_add_eq_or_of_lt (by omega)]
  rw [Nat.or_comm _ (2 ^ 24 * d.toNat), ← Nat.two_pow_add_eq_or_of_lt (by omega)]
  omega

theorem to_word_of_word (w : UInt32) :
    toWord w.toUInt8 (w >>> 8).toUInt8 (w >>> 16).toUInt8 (w >>> 24).toUInt8 = w := by
  have bound := w.toNat_lt
  apply UInt32.toNat_inj.mp
  simp only [to_nat_to_word, UInt32.toNat_toUInt8, UInt32.toNat_shiftRight, Nat.shiftRight_eq_div_pow,
    UInt32.reduceToNat, Nat.reduceMod]
  omega

theorem of_word_to_word (a b c d : UInt8) : ofWord (toWord a b c d) = [a, b, c, d] := by
  have aBound := a.toNat_lt
  have bBound := b.toNat_lt
  have cBound := c.toNat_lt
  have dBound := d.toNat_lt
  simp only [ofWord, List.cons.injEq, and_true, ← UInt8.toNat_inj, UInt32.toNat_toUInt8,
    UInt32.toNat_shiftRight, to_nat_to_word, Nat.shiftRight_eq_div_pow, UInt32.reduceToNat,
    Nat.reduceMod]
  omega

theorem length_of_word (w : UInt32) : (ofWord w).length = 4 := rfl

theorem length_of_text (s : String) : (ofText s).length = s.utf8ByteSize := by
  rw [← String.size_toByteArray]
  exact Array.length_toList

theorem to_text_eq_some_iff (bs : Bytes) (s : String) : toText? bs = some s ↔ bs = ofText s := by
  unfold toText? String.fromUTF8? ofText
  constructor
  · intro spelt
    split at spelt
    · cases spelt
      rfl
    · cases spelt
  · rintro rfl
    rw [Array.toArray_toList, dif_pos s.isValidUTF8]
    rfl

theorem to_text_of_text (s : String) : toText? (ofText s) = some s := (to_text_eq_some_iff _ s).mpr rfl

end Loom.Bytes
