import Loom.Proofs.Acceptance
import Loom.Proofs.ClosedReads
import Loom.Proofs.SymbolFormat

set_option autoImplicit false

/-! Without the last bytes of a file a read goes the way it went with them until it runs into the end, so it is the
end that stops it, whatever the checksum says. -/
namespace Loom

namespace Read

variable {α β : Type}

def RunsOut (read : Read α) (r : Reader) : Prop := ∃ offset left, read r = .error (.unexpectedEnd offset) left

def CutShort (read : Read α) : Prop := ∀ position cut more a after, read ⟨position, cut ++ more⟩ = .ok a after →
  read.RunsOut ⟨position, cut⟩ ∨
    ∃ rest, after.unread = rest ++ more ∧ read ⟨position, cut⟩ = .ok a ⟨after.position, rest⟩

theorem runs_out_of_first {p : Read α} {q : α → Read β} {r : Reader} (first : p.RunsOut r) : (p >>= q).RunsOut r := by
  obtain ⟨offset, left, failed⟩ := first
  refine ⟨offset, left, ?_⟩
  change EStateM.bind p q r = _
  rw [EStateM.bind, failed]

theorem bind_cut {p : Read α} {q : α → Read β} {position : Nat} {cut more : Bytes} {b : β} {after : Reader}
    (first : CutShort p) (done : (p >>= q) ⟨position, cut ++ more⟩ = .ok b after) :
    (p >>= q).RunsOut ⟨position, cut⟩ ∨ ∃ a mid rest,
      q a ⟨mid, rest ++ more⟩ = .ok b after ∧ (p >>= q) ⟨position, cut⟩ = q a ⟨mid, rest⟩ := by
  obtain ⟨a, ⟨mid, unread⟩, doneFirst, doneSecond⟩ := (bind_eq_ok_iff _ _ _ _ _).mp done
  obtain short | ⟨rest, rfl, again⟩ := first position cut more a _ doneFirst
  · exact .inl (runs_out_of_first short)
  · exact .inr ⟨a, mid, rest, doneSecond, bind_of_ok again⟩

theorem cut_short_bind {p : Read α} {q : α → Read β} (first : CutShort p) (second : ∀ a, CutShort (q a)) :
    CutShort (p >>= q) := by
  intro position cut more b after done
  obtain short | ⟨a, mid, rest, doneSecond, same⟩ := bind_cut first done
  · exact .inl short
  · rw [RunsOut, same]
    exact second a mid rest more b after doneSecond

theorem cut_short_pure (a : α) : CutShort (pure a) := by
  intro position cut more b after done
  cases done
  exact .inr ⟨cut, rfl, rfl⟩

theorem cut_short_throw (e : DecodeError) : CutShort (throw e : Read α) := by
  intro position cut more a after done
  cases done

theorem cut_short_position : CutShort position := by
  intro position cut more a after done
  cases done
  exact .inr ⟨cut, rfl, rfl⟩

theorem cut_short_u8 : CutShort u8 := by
  intro position cut more a after done
  cases cut with
  | nil => exact .inl ⟨position, _, rfl⟩
  | cons b rest =>
      cases done
      exact .inr ⟨rest, rfl, rfl⟩

theorem cut_short_word : CutShort u32 := by
  intro position cut more w after done
  match cut with
  | [] | [_] | [_, _] | [_, _, _] => exact .inl ⟨position, _, rfl⟩
  | a :: b :: c :: d :: rest =>
      cases done
      exact .inr ⟨rest, rfl, rfl⟩

theorem cut_short_magic : CutShort magic := by
  intro position cut more m after done
  match cut with
  | [] | [_] | [_, _] | [_, _, _] => exact .inl ⟨position, _, rfl⟩
  | a :: b :: c :: d :: rest =>
      cases done
      exact .inr ⟨rest, rfl, rfl⟩

theorem cut_short_bytes (n : Nat) : CutShort (bytes n) := by
  intro position cut more bs after done
  by_cases fits : n ≤ cut.length
  · have whole : n ≤ (cut ++ more).length := by
      rw [List.length_append]
      omega
    simp only [bytes, Bytes.split_exact_eq, if_pos whole, List.take_append_of_le_length fits,
      List.drop_append_of_le_length fits] at done
    cases done
    refine .inr ⟨cut.drop n, rfl, ?_⟩
    simp only [bytes, Bytes.split_exact_eq, if_pos fits]
  · refine .inl ⟨position, ⟨position, cut⟩, ?_⟩
    simp only [bytes, Bytes.split_exact_eq, if_neg fits]

theorem closed_cut_short : Closed CutShort where
  pure := cut_short_pure
  throw := cut_short_throw
  bind := cut_short_bind
  position := cut_short_position
  u8 := cut_short_u8
  word := cut_short_word
  bytes := cut_short_bytes

theorem cut_short_count : CutShort count :=
  cut_short_bind cut_short_position fun offset => cut_short_bind cut_short_word fun n => by
    intro position cut more a after done
    by_cases fits : Bytes.atLeast n.toNat cut = true
    · have whole : Bytes.atLeast n.toNat (cut ++ more) = true := by
  -- A number of rows that the whole file has room for may be too much for what is left of it.
        rw [Bytes.at_least_iff] at fits ⊢
        rw [List.length_append]
        omega
      simp only [if_pos whole] at done
      cases done
      exact .inr ⟨cut, rfl, if_pos fits⟩
    · exact .inl ⟨offset, _, if_neg fits⟩

def FindsMismatch (read : Read (Except FormatError α)) (r : Reader) : Prop :=
  ∃ stored computed left, read r = .ok (.error (.checksum stored computed)) left

def SealedShort (read : Read (Except FormatError α)) : Prop := ∀ position cut more a after,
  read ⟨position, cut ++ more⟩ = .ok (.ok a) after →
    read.RunsOut ⟨position, cut⟩ ∨ read.FindsMismatch ⟨position, cut⟩ ∨
      ∃ rest, after.unread = rest ++ more ∧ read ⟨position, cut⟩ = .ok (.ok a) ⟨after.position, rest⟩

theorem sealed_short_bind {p : Read α} {q : α → Read (Except FormatError β)} (first : CutShort p)
    (second : ∀ a, SealedShort (q a)) : SealedShort (p >>= q) := by
  intro position cut more b after done
  obtain short | ⟨a, mid, rest, doneSecond, same⟩ := bind_cut first done
  · exact .inl short
  · rw [RunsOut, FindsMismatch, same]
    exact second a mid rest more b after doneSecond

theorem sealed_short_fault (e : FormatError) : SealedShort (pure (.error e) : Read (Except FormatError α)) := by
  intro position cut more a after done
  cases done

theorem sealed_short_opening {expected : Magic} {format : UInt32} {body : Read (Except FormatError α)}
    (short : SealedShort body) : SealedShort (opening expected format body) := by
  refine sealed_short_bind cut_short_magic fun found => ?_
  split
  · exact sealed_short_fault _
  · refine sealed_short_bind cut_short_word fun version => ?_
    split
    · exact sealed_short_fault _
    · exact short

theorem sealed_short_checked (checksum : Bytes → UInt32) {payload : Read α} (short : CutShort payload) :
    SealedShort (checked checksum payload) := by
  intro position cut more a after done
  obtain ⟨body, unread, readPayload⟩ := (checked_eq_ok_iff _ _ _).mp done
  have readWord : u32 ⟨position, cut ++ more⟩ = .ok (checksum body) ⟨position + 4, body⟩ := by
    rw [show cut ++ more = _ from unread]
    exact word_ahead _ _ _
  obtain short | ⟨rest, rfl, again⟩ := cut_short_word position cut more _ _ readWord
  · exact .inl (runs_out_of_first short)
  · obtain ⟨_, rfl, unreadCut, _⟩ := (accepts_word _ _ _).mp again
    obtain rfl : cut = _ ++ rest := unreadCut
    by_cases collide : checksum (rest ++ more) = checksum rest
    · rw [collide]
      obtain ranOut | ⟨last, unreadLast, againPayload⟩ := short _ rest more a after readPayload
      · left
        rw [RunsOut, checked_passed]
        exact runs_out_of_first ranOut
      · exact .inr (.inr ⟨last, unreadLast, (checked_passed rest).trans ((bind_of_ok againPayload).trans rfl)⟩)
    · exact .inr (.inl ⟨_, _, _, checked_wrong collide⟩)

theorem decode_of_cut {read : Read (Except FormatError α)} {cut more : Bytes} {a : α} {position : Nat}
    (short : SealedShort read) (whole : read (Reader.start (cut ++ more)) = .ok (.ok a) ⟨position, []⟩)
    (missing : more ≠ []) :
    (∃ offset, read.decode cut = .error (.malformed (.unexpectedEnd offset))) ∨
      ∃ stored computed, read.decode cut = .error (.checksum stored computed) := by
  obtain ⟨offset, left, failed⟩ | ⟨stored, computed, left, mismatch⟩ | ⟨rest, spent, _⟩ := short 0 cut more a _ whole
  · exact .inl ⟨offset, decode_of_error failed⟩
  · exact .inr ⟨stored, computed, decode_of_ok mismatch⟩
  · exact absurd (List.append_eq_nil_iff.mp spent.symm).2 missing

end Read

namespace Module

theorem sealed_short_read (checksum : Bytes → UInt32) : Read.SealedShort (readWith checksum Read.count) := by
  rw [read_with_eq]
  exact Read.sealed_short_opening (Read.sealed_short_bind Read.cut_short_word fun flags =>
    Read.sealed_short_checked checksum (Read.closed_cut_short.payload Read.cut_short_count flags))

end Module

namespace SymbolTable

theorem sealed_short_read (checksum : Bytes → UInt32) : Read.SealedShort (readWith checksum Read.count) := by
  rw [read_with_eq]
  exact Read.sealed_short_opening
    (Read.sealed_short_checked checksum (Read.closed_cut_short.symbol_payload Read.cut_short_count))

end SymbolTable

theorem truncation_rejected (checksum : Bytes → UInt32) (m : Module) (t : SymbolTable) :
    (Module.decodeWith checksum Read.count (m.encodeWith checksum) = .ok m →
      ∀ cut, cut <+: m.encodeWith checksum → cut ≠ m.encodeWith checksum →
        (∃ offset, Module.decodeWith checksum Read.count cut = .error (.malformed (.unexpectedEnd offset))) ∨
        ∃ stored computed, Module.decodeWith checksum Read.count cut = .error (.checksum stored computed)) ∧
    (SymbolTable.decodeWith checksum Read.count (t.encodeWith checksum) = .ok t →
      ∀ cut, cut <+: t.encodeWith checksum → cut ≠ t.encodeWith checksum →
        (∃ offset, SymbolTable.decodeWith checksum Read.count cut = .error (.malformed (.unexpectedEnd offset))) ∨
        ∃ stored computed, SymbolTable.decodeWith checksum Read.count cut = .error (.checksum stored computed)) := by
  constructor
  · rintro reread cut ⟨more, whole⟩ strict
    have done := Module.read_encode_with checksum (Module.fits_of_decode reread)
    rw [← whole] at done
    refine Read.decode_of_cut (Module.sealed_short_read checksum) done fun none => strict ?_
    rw [← whole, none, List.append_nil]
  · rintro reread cut ⟨more, whole⟩ strict
    have done := SymbolTable.read_encode_with checksum (SymbolTable.fits_of_decode reread)
    rw [← whole] at done
    refine Read.decode_of_cut (SymbolTable.sealed_short_read checksum) done fun none => strict ?_
    rw [← whole, none, List.append_nil]

-- A checksum that all byte strings share sees no cut: here the first is inside the table of references, and behind
-- the second there is a number of rows with no row.
theorem truncation_rejected_on_collision :
    let blind : Bytes → UInt32 := fun _ => 0
    let game : Module := ⟨Module.magicNumber, 1, 0, ⟨"Game", "1"⟩, [⟨"Base", "1"⟩], [], [], none⟩
    let table : SymbolTable := ⟨"Game", [⟨"Foe", "Foe.src", 3⟩]⟩
    let cutGame := (game.encodeWith blind).take 35
    let cutTable := (table.encodeWith blind).take 24
    Module.decodeWith blind Read.count (game.encodeWith blind) = .ok game ∧
    SymbolTable.decodeWith blind Read.count (table.encodeWith blind) = .ok table ∧
    ((∃ offset, Module.decodeWith blind Read.count cutGame = .error (.malformed (.unexpectedEnd offset))) ∨
      ∃ stored computed, Module.decodeWith blind Read.count cutGame = .error (.checksum stored computed)) ∧
    ((∃ offset, SymbolTable.decodeWith blind Read.count cutTable = .error (.malformed (.unexpectedEnd offset))) ∨
      ∃ stored computed, SymbolTable.decodeWith blind Read.count cutTable = .error (.checksum stored computed)) := by
  intro blind game table cutGame cutTable
  have lengths : game.LengthsFit := by decide +kernel
  have gameFits : game.Fits := lengths.fits rfl rfl
  have tableFits : table.Fits := by decide +kernel
  have gameReread := Module.decode_encode_with blind gameFits
  have tableReread := Read.decode_of_ok (SymbolTable.read_encode_with blind tableFits)
  obtain ⟨gameCut, tableCut⟩ := truncation_rejected blind game table
  exact ⟨gameReread, tableReread, gameCut gameReread cutGame (List.take_prefix _ _) (by decide +kernel),
    tableCut tableReread cutTable (List.take_prefix _ _) (by decide +kernel)⟩

end Loom
