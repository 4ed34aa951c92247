import Loom.Proofs.Acceptance
import Loom.Proofs.SymbolFormat

set_option autoImplicit false

namespace Loom

namespace Form

def OneWord (words : Bytes → Prop) : Prop := ∀ bytes other, words bytes → words other → bytes = other

theorem one_word_both {first second : Bytes → Prop} (front : OneWord first) (back : OneWord second) :
    OneWord (both first second) := by
  intro bytes other spelt again
  obtain ⟨a, b, speltFirst, speltSecond, rfl⟩ := spelt
  obtain ⟨c, d, againFirst, againSecond, rfl⟩ := again
  rw [front a c speltFirst againFirst, back b d speltSecond againSecond]

theorem one_word_word (w : UInt32) : OneWord (word w) := by
  intro bytes other spelt again
  rw [show bytes = _ from spelt, show other = _ from again]

theorem one_word_text (s : String) : OneWord (text s) := by
  intro bytes other spelt again
  rw [spelt.2, again.2]

variable {α : Type} {form : Form α}

theorem one_word_rows (single : ∀ a, OneWord (form a)) (as : List α) : OneWord (rows form as) := by
  induction as with
  | nil =>
      intro bytes other spelt again
      rw [show bytes = [] from spelt, show other = [] from again]
  | cons a rest ih => exact one_word_both (single a) ih

theorem one_word_table (single : ∀ a, OneWord (form a)) (as : List α) : OneWord (table form as) := by
  intro bytes other spelt again
  exact one_word_both (one_word_word _) (one_word_rows single as) bytes other spelt.2 again.2

end Form

open Form in
theorem SymbolEntry.one_word_form (e : SymbolEntry) : OneWord (SymbolEntry.form e) :=
  one_word_both (one_word_text e.typeName) (one_word_both (one_word_text e.document) (one_word_word e.line))

namespace SymbolTable

theorem one_word_payload (t : SymbolTable) : Form.OneWord t.payloadForm :=
  Form.one_word_both (Form.one_word_text t.moduleName) (Form.one_word_table SymbolEntry.one_word_form t.entries)

theorem payload_form_iff (t : SymbolTable) (bytes : Bytes) : t.payloadForm bytes ↔ t.Fits ∧ bytes = t.payload := by
  constructor
  · intro spelt
    have fits := payload_writes.fits t bytes spelt
    exact ⟨fits, t.one_word_payload bytes t.payload spelt (payload_writes.spelt t fits)⟩
  · rintro ⟨fits, rfl⟩
    exact payload_writes.spelt t fits

theorem decode_with_eq_ok_iff_payload (checksum : Bytes → UInt32) (bytes : Bytes) (t : SymbolTable) :
    decodeWith checksum Read.count bytes = .ok t ↔ t.Fits ∧ ∃ tail,
      bytes = magicNumber.bytes ++ Bytes.ofWord currentFormat ++ Bytes.ofWord (checksum (t.payload ++ tail))
        ++ (t.payload ++ tail) := by
  rw [decode_with_eq_ok_iff Read.count_counts]
  constructor
  · rintro ⟨front, tail, spelt, whole⟩
    obtain ⟨fits, rfl⟩ := (t.payload_form_iff front).mp spelt
    exact ⟨fits, tail, whole⟩
  · rintro ⟨fits, tail, whole⟩
    exact ⟨t.payload, tail, (t.payload_form_iff _).mpr ⟨fits, rfl⟩, whole⟩

theorem round_trip_iff (checksum : Bytes → UInt32) (t : SymbolTable) :
    decodeWith checksum Read.count (t.encodeWith checksum) = .ok t ↔ t.Fits := by
  constructor
  · exact fits_of_decode
  · intro fits
    exact Read.decode_of_ok (read_encode_with checksum fits)

theorem advances_read_with (checksum : Bytes → UInt32) : Read.Advances (readWith checksum Read.count) := by
  rw [read_with_eq]
  exact Read.advances_opening (Read.advances_checked checksum (Read.closed_advances.symbol_payload Read.advances_count))

theorem read_with_congr (checksum other : Bytes → UInt32) (count : Read Nat) (bytes : Bytes)
    (same : 12 ≤ bytes.length → checksum (bytes.drop 12) = other (bytes.drop 12)) :
    readWith checksum count (Reader.start bytes) = readWith other count (Reader.start bytes) := by
  rw [read_with_eq, read_with_eq]
  refine Read.opening_congr fun r unread => Read.checked_congr fun stored body unreadStored => ?_
  have header : bytes = (magicNumber.bytes ++ Bytes.ofWord currentFormat ++ Bytes.ofWord stored) ++ body := by
    rw [show bytes = (Reader.start bytes).unread from rfl, unread, unreadStored]
    simp only [List.append_assoc]
  have whole : 12 ≤ bytes.length := by
    rw [header, List.length_append]
    exact Nat.le_add_right 12 _
  have behind : bytes.drop 12 = body := by
    rw [header]
    rfl
  rw [← behind]
  exact same whole

/-- A symbol file has no presence bytes, so unlike a module a table has one word only. -/
theorem accepted_iff_payload_ahead (checksum : Bytes → UInt32) (bytes : Bytes) (t : SymbolTable) :
    (decodeWith checksum Read.count (t.encodeWith checksum) = .ok t ↔ t.Fits) ∧
    (decodeWith checksum Read.count bytes = .ok t ↔ t.Fits ∧ ∃ tail,
      bytes = magicNumber.bytes ++ Bytes.ofWord currentFormat ++ Bytes.ofWord (checksum (t.payload ++ tail))
        ++ (t.payload ++ tail)) ∧
    (decodeWith checksum Read.count bytes = .ok t →
      decodeWith checksum Read.count (t.encodeWith checksum) = .ok t ∧
      (t.encodeWith checksum).length ≤ bytes.length) ∧
    ((readWith checksum Read.count).leaves (Reader.start bytes)).position ≤ bytes.length ∧
    ∀ other : Bytes → UInt32, (12 ≤ bytes.length → checksum (bytes.drop 12) = other (bytes.drop 12)) →
      decodeWith other Read.count bytes = decodeWith checksum Read.count bytes := by
  refine ⟨round_trip_iff checksum t, decode_with_eq_ok_iff_payload checksum bytes t, fun accepted => ?_, ?_,
    fun other same => ?_⟩
  · obtain ⟨fits, tail, whole⟩ := (decode_with_eq_ok_iff_payload checksum bytes t).mp accepted
    refine ⟨(round_trip_iff checksum t).mpr fits, ?_⟩
    rw [whole, encodeWith]
    simp only [List.length_append, Bytes.length_of_word]
    omega
  · exact (Reader.onto_start (advances_read_with checksum (Reader.start bytes))).1
  · unfold decodeWith Read.decode
    rw [read_with_congr checksum other Read.count bytes same]

end SymbolTable

end Loom
