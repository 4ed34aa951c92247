import Loom.Proofs.RoundTrip

set_option autoImplicit false

namespace Loom

def SymbolEntry.form : Form SymbolEntry := fun e =>
  Form.both (Form.text e.typeName) (Form.both (Form.text e.document) (Form.word e.line))

def SymbolTable.payloadForm : Form SymbolTable := fun t =>
  Form.both (Form.text t.moduleName) (Form.table SymbolEntry.form t.entries)

structure SymbolEntry.Fits (e : SymbolEntry) : Prop where
  typeName : TextFits e.typeName
  document : TextFits e.document

structure SymbolTable.Fits (t : SymbolTable) : Prop where
  moduleName : TextFits t.moduleName
  entries : TableFits SymbolEntry.Fits t.entries

instance : DecidablePred SymbolEntry.Fits := fun e =>
  decidable_of_iff (TextFits e.typeName ∧ TextFits e.document)
    ⟨fun fits => ⟨fits.1, fits.2⟩, fun fits => ⟨fits.typeName, fits.document⟩⟩

instance : DecidablePred SymbolTable.Fits := fun t =>
  decidable_of_iff (TextFits t.moduleName ∧ TableFits SymbolEntry.Fits t.entries)
    ⟨fun fits => ⟨fits.1, fits.2⟩, fun fits => ⟨fits.moduleName, fits.entries⟩⟩

namespace Read

theorem accepts_symbol_entry : Accepts SymbolEntry.read SymbolEntry.form := by
  have parts := accepts_bind accepts_text fun typeName => accepts_bind accepts_text fun document =>
    accepts_bind accepts_word fun line => accepts_pure (SymbolEntry.mk typeName document line)
  refine accepts_congr parts fun e bytes => ?_
  constructor
  · intro spelt
    obtain ⟨typeName, a, _, typeForm, ⟨document, b, _, documentForm, ⟨line, c, _, lineForm, ⟨rfl, rfl⟩, rfl⟩, rfl⟩,
      rfl⟩ := spelt
    exact ⟨a, b ++ c, typeForm, ⟨b, c, documentForm, lineForm, rfl⟩, by rw [List.append_nil]⟩
  · intro spelt
    obtain ⟨a, _, typeForm, ⟨b, c, documentForm, lineForm, rfl⟩, rfl⟩ := spelt
    exact ⟨e.typeName, a, b ++ c, typeForm, ⟨e.document, b, c, documentForm, ⟨e.line, c, [], lineForm,
      ⟨rfl, rfl⟩, (List.append_nil c).symm⟩, rfl⟩, rfl⟩

theorem accepts_symbol_payload {count : Read Nat} (counts : Counts count) :
    Accepts (SymbolTable.readPayload count) SymbolTable.payloadForm := by
  have entryNonempty : ∀ e bytes, SymbolEntry.form e bytes → bytes ≠ [] :=
    fun e => Form.both_ne_nil (Form.text_ne_nil e.typeName)
  have parts := accepts_bind accepts_text fun moduleName =>
    accepts_bind (accepts_table counts accepts_symbol_entry entryNonempty) fun entries =>
      accepts_pure (SymbolTable.mk moduleName entries)
  refine accepts_congr parts fun t bytes => ?_
  constructor
  · intro spelt
    obtain ⟨moduleName, a, _, nameForm, ⟨entries, b, _, entriesForm, ⟨rfl, rfl⟩, rfl⟩, rfl⟩ := spelt
    exact ⟨a, b, nameForm, entriesForm, by rw [List.append_nil]⟩
  · intro spelt
    obtain ⟨a, b, nameForm, entriesForm, rfl⟩ := spelt
    exact ⟨t.moduleName, a, b, nameForm, ⟨t.entries, b, [], entriesForm, ⟨rfl, rfl⟩, (List.append_nil b).symm⟩, rfl⟩

end Read

theorem symbol_entry_writes : Writes SymbolEntry.encode SymbolEntry.form SymbolEntry.Fits := by
  constructor
  · intro e fits
    refine ⟨_, _, text_writes.spelt _ fits.typeName, ⟨_, _, text_writes.spelt _ fits.document, rfl, rfl⟩, ?_⟩
    rw [SymbolEntry.encode, List.append_assoc]
  · intro e bytes spelt
    obtain ⟨_, _, typeName, ⟨_, _, document, _, _⟩, _⟩ := spelt
    exact ⟨typeName.1, document.1⟩

namespace SymbolTable

theorem payload_writes : Writes payload payloadForm Fits := by
  constructor
  · intro t fits
    exact ⟨_, _, text_writes.spelt _ fits.moduleName, (table_writes symbol_entry_writes).spelt _ fits.entries, rfl⟩
  · intro t bytes spelt
    obtain ⟨_, _, moduleName, entries, _⟩ := spelt
    exact ⟨moduleName.1, (table_writes symbol_entry_writes).fits _ _ entries⟩

theorem read_with_eq_ok_iff (checksum : Bytes → UInt32) (count : Read Nat) (r after : Reader) (t : SymbolTable) :
    readWith checksum count r = .ok (.ok t) after ↔
      ∃ mid, r.unread = magicNumber.bytes ++ Bytes.ofWord currentFormat ++ Bytes.ofWord (checksum mid.unread)
          ++ mid.unread ∧
        mid.position = r.position + 12 ∧ readPayload count mid = .ok t after := by
  rw [read_with_eq, Read.opening_eq_ok_iff]
  constructor
  · intro done
    obtain ⟨rest, unread, done⟩ := done
    obtain ⟨body, unreadBody, done⟩ := (Read.checked_eq_ok_iff _ _ _).mp done
    refine ⟨⟨r.position + 12, body⟩, ?_, rfl, done⟩
    rw [unread, show rest = _ from unreadBody]
    simp only [List.append_assoc]
  · intro framedBody
    obtain ⟨mid, unread, position, done⟩ := framedBody
    simp only [List.append_assoc] at unread
    exact ⟨_, unread, (Read.checked_eq_ok_iff _ _ _).mpr ⟨mid.unread, rfl, position ▸ done⟩⟩

theorem decode_with_eq_ok_iff {count : Read Nat} (counts : Read.Counts count) (checksum : Bytes → UInt32)
    (bytes : Bytes) (t : SymbolTable) :
    decodeWith checksum count bytes = .ok t ↔ ∃ front tail, t.payloadForm front ∧
      bytes = magicNumber.bytes ++ Bytes.ofWord currentFormat ++ Bytes.ofWord (checksum (front ++ tail))
        ++ (front ++ tail) := by
  rw [decodeWith, Read.decode_eq_ok_iff]
  constructor
  · intro done
    obtain ⟨after, done⟩ := done
    obtain ⟨mid, unread, _, readRest⟩ := (read_with_eq_ok_iff _ _ _ _ _).mp done
    obtain ⟨front, spelt, rest, _⟩ := (Read.accepts_symbol_payload counts _ _ _).mp readRest
    exact ⟨front, after.unread, spelt, by rw [← rest]; exact unread⟩
  · intro formed
    obtain ⟨front, tail, spelt, rfl⟩ := formed
    refine ⟨⟨12 + front.length, tail⟩, (read_with_eq_ok_iff _ _ _ _ _).mpr ⟨⟨12, front ++ tail⟩, rfl, rfl, ?_⟩⟩
    exact (Read.accepts_symbol_payload counts _ _ _).mpr ⟨front, spelt, rfl, rfl⟩

theorem fits_of_decode {checksum : Bytes → UInt32} {bytes : Bytes} {t : SymbolTable}
    (read : decodeWith checksum Read.count bytes = .ok t) : t.Fits := by
  obtain ⟨front, _, spelt, _⟩ := (decode_with_eq_ok_iff Read.count_counts _ bytes t).mp read
  exact payload_writes.fits t front spelt

theorem read_encode_with (checksum : Bytes → UInt32) {t : SymbolTable} (fits : t.Fits) :
    readWith checksum Read.count (Reader.start (t.encodeWith checksum)) =
      .ok (.ok t) ⟨12 + t.payload.length, []⟩ := by
  refine (read_with_eq_ok_iff _ _ _ _ _).mpr ⟨⟨12, t.payload⟩, rfl, rfl, ?_⟩
  exact (Read.accepts_symbol_payload Read.count_counts _ _ _).mpr
    ⟨t.payload, payload_writes.spelt t fits, (List.append_nil _).symm, rfl⟩

theorem decode_encode {t : SymbolTable} (fits : t.Fits) : decode t.encode = .ok t :=
  Read.decode_of_ok (read_encode_with Checksum.crc32 fits)

theorem not_module_of_decode {bytes : Bytes} {t : SymbolTable} (read : decode bytes = .ok t) (m : Module) :
    Module.decode bytes ≠ .ok m := by
  intro isModule
  obtain ⟨_, _, _, own⟩ := (decode_with_eq_ok_iff Read.count_counts _ bytes t).mp read
  obtain ⟨_, _, _, _, _, other⟩ := (Module.decode_with_eq_ok_iff Read.count_counts _ bytes m).mp isModule
  rw [own] at other
  have second : (some 0x53 : Option UInt8) = some 0x45 := congrArg (fun bytes : Bytes => bytes[1]?) other
  cases second

end SymbolTable

end Loom
