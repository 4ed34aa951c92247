import Loom.Json.Record

set_option autoImplicit false

namespace Loom.Json

theorem hex_value_digit : ∀ n < 16, hexValue? (hexDigit n) = some n := by
  decide

theorem code_unit_digits (n : Nat) (small : n < 0x20) :
    codeUnit? ['0', '0', hexDigit (n / 16), hexDigit (n % 16)] = some (n, []) := by
  have zero : hexValue? '0' = some 0 := rfl
  have whole : n / 16 * 16 + n % 16 = n := by omega
  simp [codeUnit?, zero, hex_value_digit (n / 16) (by omega), hex_value_digit (n % 16) (by omega), whole]

def Piece.Spells (p : Piece) (c : Char) : Prop := p = .char c ∨ p = .unit c.toNat ∧ c.toNat < 0x20

theorem join_spelt (p : Piece) (c : Char) (spelt : p.Spells c) (ps : List Piece) :
    joinPieces (p :: ps) = (joinPieces ps).map (c :: ·) := by
  obtain rfl | ⟨rfl, small⟩ := spelt
  · rfl
  · have high : ¬(0xD800 ≤ c.toNat ∧ c.toNat < 0xDC00) := by omega
    have low : ¬(0xDC00 ≤ c.toNat ∧ c.toNat < 0xE000) := by omega
    have half : ¬(0xD800 ≤ c.toNat ∧ c.toNat < 0xE000) := by omega
    rcases ps with _ | ⟨_ | _, ps⟩
    · simp only [joinPieces, half, if_false, Char.ofNat_toNat]
    · simp only [joinPieces, half, if_false, Char.ofNat_toNat]
    · rw [joinPieces, if_neg high, if_neg low, Char.ofNat_toNat]

def shortEscapes : List Char := ['\x22', '\\', '\x08', '\x0c', '\n', '\r', '\t']

theorem escape_control (c : Char) (long : c ∉ shortEscapes) (control : c.toNat < 0x20) :
    escape c = ['\\', 'u', '0', '0', hexDigit (c.toNat / 16), hexDigit (c.toNat % 16)] := by
  simp only [shortEscapes, List.mem_cons, List.not_mem_nil, or_false, not_or] at long
  simp only [escape, long, control, if_false, if_true]

theorem escape_plain (c : Char) (long : c ∉ shortEscapes) (plain : ¬c.toNat < 0x20) :
    escape c = [c] := by
  simp only [shortEscapes, List.mem_cons, List.not_mem_nil, or_false, not_or] at long
  simp only [escape, long, plain, if_false]

theorem pieces_bind (p : Piece) (rest : List Char) :
    (pieces rest).bind (fun (ps, left) => some (p :: ps, left)) =
      (pieces rest).map fun (ps, left) => (p :: ps, left) := by
  cases pieces rest with
  | none => rfl
  | some _ => rfl

theorem pieces_escape (c : Char) (rest : List Char) :
    ∃ p : Piece, p.Spells c ∧
      pieces (escape c ++ rest) = (pieces rest).map fun (ps, left) => (p :: ps, left) := by
  by_cases short : c ∈ shortEscapes
  · refine ⟨.char c, .inl rfl, ?_⟩
    rw [← pieces_bind]
    simp only [shortEscapes, List.mem_cons, List.not_mem_nil, or_false] at short
    obtain rfl | rfl | rfl | rfl | rfl | rfl | rfl := short <;> rfl
  · by_cases control : c.toNat < 0x20
    · refine ⟨.unit c.toNat, .inr ⟨rfl, control⟩, ?_⟩
      rw [← pieces_bind, escape_control c short control]
      simp only [List.cons_append, List.nil_append]
      rw [pieces, code_unit_digits c.toNat (by omega)]
      rfl
    · refine ⟨.char c, .inl rfl, ?_⟩
      have unquoted : c ≠ '\x22' := fun same => short (by simp [same, shortEscapes])
      have unescaped : c ≠ '\\' := fun same => short (by simp [same, shortEscapes])
      have read : ¬(c.toNat < 0x20 ∨ c = '\\') := not_or.mpr ⟨control, unescaped⟩
      rw [← pieces_bind, escape_plain c short control, List.singleton_append, pieces, if_neg read]
      · rfl
      · exact unquoted
      · exact fun _ _ _ _ _ same => absurd same unescaped
      · exact fun _ _ same => absurd same unescaped

theorem parse_escaped (cs rest : List Char) :
    ∃ ps, pieces (cs.flatMap escape ++ '\x22' :: rest) = some (ps, rest) ∧ joinPieces ps = some cs := by
  induction cs with
  | nil => exact ⟨[], rfl, rfl⟩
  | cons c cs ih =>
      obtain ⟨ps, read, joined⟩ := ih
      obtain ⟨p, spelt, first⟩ := pieces_escape c (cs.flatMap escape ++ '\x22' :: rest)
      refine ⟨p :: ps, ?_, ?_⟩
      · rw [List.flatMap_cons, List.append_assoc, first, read]
        rfl
      · rw [join_spelt p c spelt, joined]
        rfl

theorem parse_quoted (s : String) (rest : List Char) :
    parseString (s.toList.flatMap escape ++ '\x22' :: rest) = some (some s, rest) := by
  obtain ⟨ps, read, joined⟩ := parse_escaped s.toList rest
  simp only [parseString, read, joined, Option.map_some, String.ofList_toList]

def Closes (rest : List Char) : Prop :=
  ∀ c ∈ rest.head?, c = ',' ∨ c = '\n' ∨ c = ']' ∨ c = '\x7d'

theorem number_ends (rest : List Char) (closes : Closes rest) :
    rest.takeWhile isDigit = [] ∧ rest.dropWhile isDigit = rest ∧
      fractionPart rest = some ([], rest) ∧ exponentPart rest = some ([], rest) := by
  cases rest with
  | nil => exact ⟨rfl, rfl, rfl, rfl⟩
  | cons c rest => obtain rfl | rfl | rfl | rfl := closes c rfl <;> exact ⟨rfl, rfl, rfl, rfl⟩

theorem is_digit_of_mem (n : Nat) (c : Char) (member : c ∈ Nat.toDigits 10 n) : isDigit c = true := by
  have digit := Nat.isDigit_of_mem_toDigits (by decide) (by decide) member
  simpa [isDigit, Char.isDigit, Char.le_def] using digit

theorem digit_char_ne_zero : ∀ n < 10, n ≠ 0 → Nat.digitChar n ≠ '0' := by
  decide

theorem no_leading_zero (n : Nat) (positive : n ≠ 0) : (Nat.toDigits 10 n).head? ≠ some '0' := by
  induction n using Nat.strongRecOn with
  | ind n ih =>
      rw [Nat.toDigits_eq_if (by decide)]
      by_cases small : n < 10
      · rw [if_pos small]
        simpa using digit_char_ne_zero n small positive
      · rw [if_neg small, List.head?_append, Option.or_of_isSome (by simp [Nat.toDigits_ne_nil])]
        exact ih (n / 10) (by omega) (by omega)

theorem decimal_head (n : Nat) :
    ∃ c cs, Nat.toDigits 10 n = c :: cs ∧ isDigit c = true ∧ (c = '0' → n = 0) := by
  cases spelt : Nat.toDigits 10 n with
  | nil => exact absurd spelt Nat.toDigits_ne_nil
  | cons c cs =>
      have digit : isDigit c = true := is_digit_of_mem n c (by simp [spelt])
      refine ⟨c, cs, rfl, digit, fun leading => Decidable.byContradiction fun positive => ?_⟩
      apply no_leading_zero n positive
      rw [spelt, leading]
      rfl

theorem digits_decimal (n : Nat) (rest : List Char) (closes : Closes rest) :
    digits (Nat.toDigits 10 n ++ rest) = some (Nat.toDigits 10 n, rest) := by
  obtain ⟨taken, left, _⟩ := number_ends rest closes
  have found : (Nat.toDigits 10 n ++ rest).takeWhile isDigit = Nat.toDigits 10 n := by
    rw [List.takeWhile_append_of_pos (is_digit_of_mem n), taken, List.append_nil]
  have dropped : (Nat.toDigits 10 n ++ rest).dropWhile isDigit = rest := by
    rw [List.dropWhile_append_of_pos (is_digit_of_mem n), left]
  obtain ⟨c, cs, spelt, _⟩ := decimal_head n
  rw [digits, found, dropped, spelt]

theorem integer_part_decimal (n : Nat) (rest : List Char) (closes : Closes rest) :
    integerPart (Nat.toDigits 10 n ++ rest) = some (Nat.toDigits 10 n, rest) := by
  by_cases zero : n = 0
  · rw [zero]
    rfl
  · have found := digits_decimal n rest closes
    obtain ⟨c, cs, spelt, _, leading⟩ := decimal_head n
    rw [spelt, List.cons_append] at found ⊢
    have other : ∀ left, c :: (cs ++ rest) = '0' :: left → False := by
      intro left same
      cases same
      exact zero (leading rfl)
    rwa [integerPart.eq_2 _ other]

theorem parse_decimal (n : Nat) (rest : List Char) (closes : Closes rest) :
    parseNumber (Nat.toDigits 10 n ++ rest) = some (Nat.toDigits 10 n, rest) := by
  obtain ⟨_, _, fraction, exponent⟩ := number_ends rest closes
  have unsigned : unsignedNumber (Nat.toDigits 10 n ++ rest) = some (Nat.toDigits 10 n, rest) := by
    simp [unsignedNumber, integer_part_decimal n rest closes, fraction, exponent]
  obtain ⟨c, cs, spelt, digit, _⟩ := decimal_head n
  rw [spelt, List.cons_append] at unsigned ⊢
  have other : ∀ left, c :: (cs ++ rest) = '-' :: left → False := by
    intro left same
    cases same
    cases digit
  rwa [parseNumber.eq_2 _ other]

theorem word_decimal (w : UInt32) : word? (.number (Nat.toDigits 10 w.toNat)) = some w := by
  have digits : (Nat.toDigits 10 w.toNat).all isDigit := List.all_eq_true.mpr (is_digit_of_mem w.toNat)
  have value : (Nat.toDigits 10 w.toNat).foldl (fun n c => n * 10 + (c.toNat - '0'.toNat)) 0 = w.toNat := by
    have folded := Nat.ofDigitChars_ten_toDigits (n := w.toNat)
    rw [Nat.ofDigitChars_eq_foldl] at folded
    simpa only [Nat.mul_comm 10] using folded
  simp only [word?, digits, if_true, value]
  rw [if_pos w.toNat_lt, UInt32.ofNat_toNat]

end Loom.Json
