import Loom.Checksum
import Loom.Proofs.Words

set_option autoImplicit false

/-! The register is stepped without loss, and a change of a few bytes enters it as a word that is not zero. -/
namespace Loom.Checksum

theorem odd_iff (x : UInt32) : x &&& 1 = 1 ↔ x.toNat % 2 = 1 := by
  rw [← UInt32.toNat_inj, UInt32.toNat_and]
  change x.toNat &&& 1 = 1 ↔ _
  rw [Nat.and_one_is_mod]

theorem odd_xor (x y : UInt32) : (x ^^^ y).toNat % 2 = 1 ↔ ¬ (x.toNat % 2 = 1 ↔ y.toNat % 2 = 1) := by
  rw [UInt32.toNat_xor, Nat.xor_mod_two_eq_one]

theorem to_nat_half (x : UInt32) : (x >>> 1).toNat = x.toNat / 2 := by
  rw [UInt32.toNat_shiftRight]
  exact Nat.shiftRight_one x.toNat

theorem bit_step_xor (x y : UInt32) : bitStep (x ^^^ y) = bitStep x ^^^ bitStep y := by
  simp only [bitStep, odd_iff, odd_xor, UInt32.shiftRight_xor]
  by_cases xOdd : x.toNat % 2 = 1
  · by_cases yOdd : y.toNat % 2 = 1
    · have twice : x >>> 1 ^^^ y >>> 1 = x >>> 1 ^^^ y >>> 1 ^^^ (polynomial ^^^ polynomial) := by
        rw [UInt32.xor_self, UInt32.xor_zero]
      simp only [xOdd, yOdd, iff_self, not_true_eq_false, if_false, if_true]
      rw [twice]
      ac_rfl
    · simp only [xOdd, yOdd, iff_false, not_true_eq_false, not_false_eq_true, if_true, if_false]
      ac_rfl
  · by_cases yOdd : y.toNat % 2 = 1
    · simp only [xOdd, yOdd, iff_true, not_false_eq_true, if_true, if_false]
      ac_rfl
    · simp only [xOdd, yOdd, iff_self, not_true_eq_false, if_false]

theorem eq_zero_of_bit_step {x : UInt32} (vanishes : bitStep x = 0) : x = 0 := by
  -- The polynomial has its highest bit set, which half a register never has.
  unfold bitStep at vanishes
  split at vanishes
  · have same := congrArg UInt32.toNat (UInt32.xor_eq_zero_iff.mp vanishes)
    have bound := x.toNat_lt
    rw [to_nat_half] at same
    have high : polynomial.toNat = 0xEDB88320 := rfl
    omega
  · rename_i even
    have half := congrArg UInt32.toNat vanishes
    rw [to_nat_half] at half
    rw [odd_iff] at even
    apply UInt32.toNat_inj.mp
    change x.toNat = 0
    change x.toNat / 2 = 0 at half
    omega

theorem bit_steps_xor (n : Nat) (x y : UInt32) : bitSteps n (x ^^^ y) = bitSteps n x ^^^ bitSteps n y := by
  induction n generalizing x y with
  | zero => rfl
  | succ n ih => rw [bitSteps, bitSteps, bitSteps, bit_step_xor, ih]

theorem bit_steps_add (m n : Nat) (x : UInt32) : bitSteps (m + n) x = bitSteps n (bitSteps m x) := by
  induction m generalizing x with
  | zero => rw [Nat.zero_add]; rfl
  | succ m ih => rw [Nat.succ_add, bitSteps, bitSteps, ih]

theorem bit_steps_injective (n : Nat) {x y : UInt32} (same : bitSteps n x = bitSteps n y) : x = y := by
  induction n generalizing x y with
  | zero => exact same
  | succ n ih =>
      have stepped := ih same
      rw [← UInt32.xor_eq_zero_iff, ← bit_step_xor] at stepped
      exact UInt32.xor_eq_zero_iff.mp (eq_zero_of_bit_step stepped)

theorem bit_steps_shifted (n : Nat) {x y : UInt32} (shifted : y.toNat = 2 ^ n * x.toNat) : bitSteps n y = x := by
  induction n generalizing y with
  | zero => exact UInt32.toNat_inj.mp (by rw [bitSteps, shifted, Nat.pow_zero, Nat.one_mul])
  | succ n ih =>
      have doubled : y.toNat = 2 * (2 ^ n * x.toNat) := by rw [shifted, Nat.pow_succ', Nat.mul_assoc]
      have even : ¬ y &&& 1 = 1 := by
        rw [odd_iff]
        omega
      rw [bitSteps, bitStep, if_neg even]
      apply ih
      rw [to_nat_half]
      omega

theorem byte_step_injective (byte : UInt8) {x y : UInt32} (same : byteStep x byte = byteStep y byte) : x = y :=
  (UInt32.xor_left_inj _).mp (bit_steps_injective 8 same)

theorem fold_injective (bytes : Bytes) {x y : UInt32}
    (same : bytes.foldl byteStep x = bytes.foldl byteStep y) : x = y := by
  induction bytes generalizing x y with
  | nil => exact same
  | cons byte rest ih => exact byte_step_injective byte (ih same)

def littleEndian : Bytes → Nat
  | [] => 0
  | byte :: rest => byte.toNat + 2 ^ 8 * littleEndian rest

theorem little_endian_bound (bytes : Bytes) : littleEndian bytes < 2 ^ (8 * bytes.length) := by
  induction bytes with
  | nil => exact Nat.one_pos
  | cons byte rest ih =>
      have bound := byte.toNat_lt
      rw [littleEndian, List.length_cons, Nat.mul_succ, Nat.add_comm, Nat.pow_add, Nat.mul_comm _ (2 ^ 8)]
      omega

theorem little_endian_injective {bytes other : Bytes} (sameLength : bytes.length = other.length)
    (same : littleEndian bytes = littleEndian other) : bytes = other := by
  induction bytes generalizing other with
  | nil => exact (List.length_eq_zero_iff.mp sameLength.symm).symm
  | cons byte rest ih =>
      cases other with
      | nil => cases sameLength
      | cons head tail =>
          have byteBound := byte.toNat_lt
          have headBound := head.toNat_lt
          simp only [littleEndian] at same
          have first : byte = head := UInt8.toNat_inj.mp (by omega)
          rw [first, ih (Nat.succ.inj sameLength) (by omega)]

theorem low_xor_high {low : Nat} (bound : low < 2 ^ 8) (high : Nat) : low ^^^ 2 ^ 8 * high = low + 2 ^ 8 * high := by
  have quotient : (low ^^^ 2 ^ 8 * high) / 2 ^ 8 = high := by
    rw [Nat.xor_div_two_pow, Nat.div_eq_of_lt bound, Nat.zero_xor, Nat.mul_div_cancel_left high (by decide)]
  have remainder : (low ^^^ 2 ^ 8 * high) % 2 ^ 8 = low := by
    rw [Nat.xor_mod_two_pow, Nat.mod_eq_of_lt bound, Nat.mul_mod_right, Nat.xor_zero]
  have whole := Nat.div_add_mod (low ^^^ 2 ^ 8 * high) (2 ^ 8)
  omega

theorem fold_window (bytes : Bytes) (short : bytes.length ≤ 4) (register : UInt32) :
    bytes.foldl byteStep register =
      bitSteps (8 * bytes.length) (register ^^^ UInt32.ofNat (littleEndian bytes)) := by
  induction bytes generalizing register with
  | nil => exact UInt32.xor_zero.symm
  | cons byte rest ih =>
      rw [List.length_cons] at short
      have bound := little_endian_bound rest
      have fits : 2 ^ (8 * rest.length) ≤ 2 ^ 24 := Nat.pow_le_pow_right (by decide) (by omega)
      have small : littleEndian rest < 2 ^ 32 := by omega
      have shifted : 2 ^ 8 * littleEndian rest < 2 ^ 32 := by omega
      have later : bitSteps 8 (UInt32.ofNat (2 ^ 8 * littleEndian rest)) = UInt32.ofNat (littleEndian rest) := by
        apply bit_steps_shifted
        rw [UInt32.toNat_ofNat_of_lt' shifted, UInt32.toNat_ofNat_of_lt' small]
      have word : UInt32.ofNat (littleEndian (byte :: rest)) =
          byte.toUInt32 ^^^ UInt32.ofNat (2 ^ 8 * littleEndian rest) := by
        rw [littleEndian, ← low_xor_high byte.toNat_lt, UInt32.ofNat_xor, UInt32.ofNat_uInt8ToNat]
      rw [List.foldl_cons, ih (by omega), ← later, byteStep, ← bit_steps_xor, ← bit_steps_add, word,
        UInt32.xor_assoc, List.length_cons, Nat.mul_succ, Nat.add_comm]

theorem crc_burst {front old new back : Bytes} (sameLength : new.length = old.length) (short : old.length ≤ 4)
    (same : crc32 (front ++ new ++ back) = crc32 (front ++ old ++ back)) : new = old := by
  have registers := (UInt32.xor_left_inj _).mp same
  rw [List.foldl_append, List.foldl_append, List.foldl_append, List.foldl_append] at registers
  have entered := fold_injective back registers
  rw [fold_window new (by omega), fold_window old short, sameLength] at entered
  have words := (UInt32.xor_right_inj _).mp (bit_steps_injective _ entered)
  have newBound := little_endian_bound new
  have oldBound := little_endian_bound old
  have fits : 2 ^ (8 * old.length) ≤ 2 ^ 32 := Nat.pow_le_pow_right (by decide) (by omega)
  rw [sameLength] at newBound
  have newSmall : littleEndian new < 2 ^ 32 := by omega
  have oldSmall : littleEndian old < 2 ^ 32 := by omega
  have values := congrArg UInt32.toNat words
  rw [UInt32.toNat_ofNat_of_lt' newSmall, UInt32.toNat_ofNat_of_lt' oldSmall] at values
  exact little_endian_injective sameLength values

end Loom.Checksum
