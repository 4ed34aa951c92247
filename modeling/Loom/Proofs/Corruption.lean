import Loom.Proofs.Acceptance
import Loom.Proofs.Checksum
import Loom.Proofs.SymbolFormat

set_option autoImplicit false

/-! A changed byte of the header shows in the field that it belongs to; behind the header the checksum shows it. -/
namespace Loom

def Burst (start : Nat) (bytes changed : Bytes) : Prop :=
  ∃ front old new back, bytes = front ++ old ++ back ∧ changed = front ++ new ++ back ∧
    start ≤ front.length ∧ new.length = old.length ∧ old.length ≤ 4 ∧ new ≠ old

namespace Bytes

variable {bytes : Bytes} {i : Nat} {b : UInt8}

theorem set_ne (inside : i < bytes.length) (other : bytes[i]? ≠ some b) : bytes.set i b ≠ bytes := by
  intro same
  rw [← same, List.getElem?_set_self inside] at other
  exact other rfl

theorem burst_of_set {start : Nat} (behind : start ≤ i) (inside : i < bytes.length) (other : bytes[i]? ≠ some b) :
    Burst start bytes (bytes.set i b) := by
  have split : bytes = bytes.take i ++ [bytes[i]] ++ bytes.drop (i + 1) := by
    rw [List.append_assoc, List.singleton_append, List.getElem_cons_drop, List.take_append_drop]
  have changed : bytes.set i b = bytes.take i ++ [b] ++ bytes.drop (i + 1) := by
    rw [List.set_eq_take_append_cons_drop, if_pos inside, List.append_assoc, List.singleton_append]
  refine ⟨_, _, _, _, split, changed, ?_, rfl, (by decide : 1 ≤ 4), ?_⟩
  · rw [List.length_take, Nat.min_eq_left (Nat.le_of_lt inside)]
    exact behind
  · intro same
    rw [List.getElem?_eq_getElem inside] at other
    exact other (congrArg some (List.singleton_inj.mp same).symm)

theorem burst_behind {header payload changed : Bytes} (burst : Burst header.length (header ++ payload) changed) :
    ∃ body, changed = header ++ body ∧ Checksum.crc32 payload ≠ Checksum.crc32 body := by
  obtain ⟨front, old, new, back, whole, rfl, behind, sameLength, short, differ⟩ := burst
  have kept : front.take header.length = header := by
    have taken := congrArg (List.take header.length) whole
    rwa [List.take_left, List.append_assoc, List.take_append_of_le_length behind, eq_comm] at taken
  obtain ⟨ahead, rfl⟩ : ∃ ahead, front = header ++ ahead :=
    ⟨front.drop header.length, by rw [← kept, List.length_take, Nat.min_eq_left behind, List.take_append_drop]⟩
  simp only [List.append_assoc] at whole
  have payloadEq := List.append_cancel_left whole
  refine ⟨ahead ++ new ++ back, by simp only [List.append_assoc], fun same => differ ?_⟩
  rw [payloadEq, ← List.append_assoc] at same
  exact Checksum.crc_burst sameLength short same.symm

theorem set_word {front rest : Bytes} {w : UInt32} (whole : bytes = front ++ (ofWord w ++ rest))
    (low : front.length ≤ i) (high : i < front.length + 4) (other : bytes[i]? ≠ some b) :
    ∃ found, found ≠ w ∧ bytes.set i b = front ++ (ofWord found ++ rest) := by
  have inside : i - front.length < (ofWord w).length := by
    rw [length_of_word]
    omega
  rw [whole, List.getElem?_append_right low, List.getElem?_append_left inside] at other
  have four : ((ofWord w).set (i - front.length) b).length = 4 := List.length_set
  have spelt : ∃ found, (ofWord w).set (i - front.length) b = ofWord found := by
    match (ofWord w).set (i - front.length) b, four with
    | [a, c, d, e], _ => exact ⟨toWord a c d e, (of_word_to_word a c d e).symm⟩
  obtain ⟨found, spelt⟩ := spelt
  refine ⟨found, fun same => set_ne inside other (same ▸ spelt), ?_⟩
  rw [whole, List.set_append_right i b low, List.set_append_left _ b inside, spelt]

theorem set_magic {rest : Bytes} {m : Magic} (whole : bytes = m.bytes ++ rest) (here : i < 4)
    (other : bytes[i]? ≠ some b) : ∃ found : Magic, found ≠ m ∧ bytes.set i b = found.bytes ++ rest := by
  have inside : i < m.bytes.length := here
  rw [whole, List.getElem?_append_left inside] at other
  have four : (m.bytes.set i b).length = 4 := List.length_set
  have spelt : ∃ found : Magic, m.bytes.set i b = found.bytes := by
    match m.bytes.set i b, four with
    | [a, c, d, e], _ => exact ⟨⟨a, c, d, e⟩, rfl⟩
  obtain ⟨found, spelt⟩ := spelt
  refine ⟨found, fun same => set_ne inside other (same ▸ spelt), ?_⟩
  rw [whole, List.set_append_left i b inside, spelt]

end Bytes

namespace Read

variable {α : Type} {bytes rest : Bytes} {i : Nat} {b : UInt8}

section Opening

variable {expected : Magic} {format : UInt32} {body : Read (Except FormatError α)}

theorem opening_changed_magic (whole : bytes = expected.bytes ++ rest) (here : i < 4) (other : bytes[i]? ≠ some b) :
    ∃ found, (opening expected format body).decode (bytes.set i b) = .error (.magic found) := by
  obtain ⟨found, differs, changed⟩ := Bytes.set_magic whole here other
  rw [changed]
  exact ⟨found, decode_of_ok (opening_wrong_magic differs _)⟩

theorem opening_changed_version (whole : bytes = expected.bytes ++ (Bytes.ofWord format ++ rest)) (low : 4 ≤ i)
    (high : i < 8) (other : bytes[i]? ≠ some b) :
    ∃ found, (opening expected format body).decode (bytes.set i b) = .error (.version found) := by
  obtain ⟨found, differs, changed⟩ := Bytes.set_word whole low high other
  rw [changed]
  exact ⟨found, decode_of_ok (opening_wrong_version differs _)⟩

end Opening

def Reaches (read : Read (Except FormatError α)) (front : Bytes) (payload : Read α) : Prop :=
  ∀ rest, read (Reader.start (front ++ rest)) = checked Checksum.crc32 payload ⟨front.length, rest⟩

section Reached

variable {read : Read (Except FormatError α)} {front : Bytes} {payload : Read α} {changed : Bytes}

theorem decode_wrong_checksum (reached : read.Reaches front payload) {stored : UInt32}
    (other : stored ≠ Checksum.crc32 rest) :
    read.decode (front ++ (Bytes.ofWord stored ++ rest)) = .error (.checksum stored (Checksum.crc32 rest)) :=
  decode_of_ok ((reached _).trans (checked_wrong other))

theorem burst_caught (reached : read.Reaches front payload)
    (whole : bytes = front ++ (Bytes.ofWord (Checksum.crc32 rest) ++ rest))
    (burst : Burst (front.length + 4) bytes changed) :
    ∃ stored computed, read.decode changed = .error (.checksum stored computed) := by
  have header : (front ++ Bytes.ofWord (Checksum.crc32 rest)).length = front.length + 4 := by
    rw [List.length_append, Bytes.length_of_word]
  rw [← header, whole, ← List.append_assoc] at burst
  obtain ⟨body, rfl, differs⟩ := Bytes.burst_behind burst
  rw [List.append_assoc]
  exact ⟨_, _, decode_wrong_checksum reached differs⟩

theorem changed_byte_caught (reached : read.Reaches front payload)
    (whole : bytes = front ++ (Bytes.ofWord (Checksum.crc32 rest) ++ rest)) (low : front.length ≤ i)
    (inside : i < bytes.length) (other : bytes[i]? ≠ some b) :
    ∃ stored computed, read.decode (bytes.set i b) = .error (.checksum stored computed) := by
  by_cases high : i < front.length + 4
  · obtain ⟨stored, differs, changed⟩ := Bytes.set_word whole low high other
    rw [changed]
    exact ⟨_, _, decode_wrong_checksum reached differs⟩
  · exact burst_caught reached whole (Bytes.burst_of_set (Nat.le_of_not_lt high) inside other)

end Reached

end Read

namespace Module

variable {m : Module} {i : Nat} {b : UInt8}

theorem encode_eq (fits : m.Fits) : m.encode = magicNumber.bytes ++ (Bytes.ofWord currentFormat ++
    (Bytes.ofWord m.flags ++ (Bytes.ofWord (Checksum.crc32 m.payload) ++ m.payload))) := by
  simp only [encode, encodeWith, fits.magic, fits.format, List.append_assoc]

theorem read_reaches (count : Read Nat) (flags : UInt32) : (readWith Checksum.crc32 count).Reaches
    (magicNumber.bytes ++ Bytes.ofWord currentFormat ++ Bytes.ofWord flags) (readPayload count flags) := by
  intro rest
  rw [read_with_eq, List.append_assoc, List.append_assoc]
  refine (Read.opening_passed _).trans ?_
  exact Read.bind_of_ok (Read.word_ahead flags _ _)

theorem changed_flags (fits : m.Fits) (low : 8 ≤ i) (high : i < 12) (other : m.encode[i]? ≠ some b) :
    ∃ flags, flags ≠ m.flags ∧ decode (m.encode.set i b) = .ok { m with flags := flags } := by
  have whole := encode_eq fits
  rw [← List.append_assoc] at whole
  obtain ⟨flags, differs, changed⟩ := Bytes.set_word whole low high other
  have otherFits : Fits { m with flags := flags } :=
    ⟨fits.magic, fits.format, fits.identity, fits.references, fits.types, fits.registrations, fits.sourceFile⟩
  have respelt : m.encode.set i b = encode { m with flags := flags } := by
    rw [changed, List.append_assoc]
    exact (encode_eq otherFits).symm
  rw [respelt]
  exact ⟨flags, differs, decode_encode_with Checksum.crc32 otherFits⟩

end Module

theorem SymbolTable.encode_eq (t : SymbolTable) : t.encode = magicNumber.bytes ++ (Bytes.ofWord currentFormat ++
    (Bytes.ofWord (Checksum.crc32 t.payload) ++ t.payload)) := by
  simp only [encode, encodeWith, List.append_assoc]

theorem SymbolTable.read_reaches (count : Read Nat) : (readWith Checksum.crc32 count).Reaches
    (magicNumber.bytes ++ Bytes.ofWord currentFormat) (readPayload count) := by
  intro rest
  rw [read_with_eq, List.append_assoc]
  exact Read.opening_passed rest

theorem corruption_caught (m : Module) (t : SymbolTable) :
    (Module.decode m.encode = .ok m →
      (∀ i b, i < m.encode.length → m.encode[i]? ≠ some b →
        (i < 4 → ∃ found, Module.decode (m.encode.set i b) = .error (.magic found)) ∧
        (4 ≤ i → i < 8 → ∃ found, Module.decode (m.encode.set i b) = .error (.version found)) ∧
        (8 ≤ i → i < 12 → ∃ flags, flags ≠ m.flags ∧
          Module.decode (m.encode.set i b) = .ok { m with flags := flags }) ∧
        (12 ≤ i → ∃ stored computed, Module.decode (m.encode.set i b) = .error (.checksum stored computed))) ∧
      ∀ changed, Burst 16 m.encode changed →
        ∃ stored computed, Module.decode changed = .error (.checksum stored computed)) ∧
    (∀ i b, i < t.encode.length → t.encode[i]? ≠ some b →
      (i < 4 → ∃ found, SymbolTable.decode (t.encode.set i b) = .error (.magic found)) ∧
      (4 ≤ i → i < 8 → ∃ found, SymbolTable.decode (t.encode.set i b) = .error (.version found)) ∧
      (8 ≤ i → ∃ stored computed, SymbolTable.decode (t.encode.set i b) = .error (.checksum stored computed))) ∧
    ∀ changed, Burst 12 t.encode changed →
      ∃ stored computed, SymbolTable.decode changed = .error (.checksum stored computed) := by
  refine ⟨fun reread => ?_, ?_⟩
  · have fits := Module.fits_of_decode reread
    have whole := Module.encode_eq fits
    have sealed := whole
    rw [← List.append_assoc, ← List.append_assoc] at sealed
    have reached := Module.read_reaches Read.count m.flags
    refine ⟨fun i b inside other => ⟨fun here => ?_, fun low high => ?_, fun low high => ?_, fun low => ?_⟩,
      fun changed burst => Read.burst_caught reached sealed burst⟩
    · exact Read.opening_changed_magic whole here other
    · exact Read.opening_changed_version whole low high other
    · exact Module.changed_flags fits low high other
    · exact Read.changed_byte_caught reached sealed low inside other
  · have whole := t.encode_eq
    have sealed := whole
    rw [← List.append_assoc] at sealed
    have reached := SymbolTable.read_reaches Read.count
    refine ⟨fun i b inside other => ⟨fun here => ?_, fun low high => ?_, fun low => ?_⟩,
      fun changed burst => Read.burst_caught reached sealed burst⟩
    · exact Read.opening_changed_magic whole here other
    · exact Read.opening_changed_version whole low high other
    · exact Read.changed_byte_caught reached sealed low inside other

-- The woven flag set in the file, a letter of the name in the other case, and a shorter line number.
theorem corruption_of_game_caught :
    let game : Module := ⟨Module.magicNumber, 1, 0, ⟨"Game", "1"⟩, [], [], [], none⟩
    let table : SymbolTable := ⟨"Game", [⟨"Foe", "Foe.src", 300⟩]⟩
    Module.decode game.encode = .ok game ∧
    (∃ flags, flags ≠ game.flags ∧ Module.decode (game.encode.set 8 1) = .ok { game with flags := flags }) ∧
    (∃ stored computed, Module.decode (game.encode.set 20 0x67) = .error (.checksum stored computed)) ∧
    ∃ stored computed, SymbolTable.decode (table.encode.set 43 0) = .error (.checksum stored computed) := by
  intro game table
  have lengths : game.LengthsFit := by decide +kernel
  have reread : Module.decode game.encode = .ok game := Module.decode_encode_with _ (lengths.fits rfl rfl)
  obtain ⟨forModule, forTable, _⟩ := corruption_caught game table
  obtain ⟨atByte, _⟩ := forModule reread
  have flagged := atByte 8 1 (by decide +kernel) (by decide +kernel)
  have renamed := atByte 20 0x67 (by decide +kernel) (by decide +kernel)
  have shortened := forTable 43 0 (by decide +kernel) (by decide +kernel)
  exact ⟨reread, flagged.2.2.1 (by decide) (by decide), renamed.2.2.2 (by decide), shortened.2.2 (by decide)⟩

end Loom
