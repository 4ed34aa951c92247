import Loom.Proofs.Header

set_option autoImplicit false

namespace Loom

def TextFits (s : String) : Prop := s.utf8ByteSize < 2 ^ 32

def TableFits {α : Type} (fits : α → Prop) (rows : List α) : Prop :=
  rows.length < 2 ^ 32 ∧ ∀ a ∈ rows, fits a

structure Identity.Fits (i : Identity) : Prop where
  name : TextFits i.name
  version : TextFits i.version

structure TypeRef.Fits (t : TypeRef) : Prop where
  scope : ∀ s ∈ t.scope, TextFits s
  space : TextFits t.space
  name : TextFits t.name

structure FieldDecl.Fits (f : FieldDecl) : Prop where
  name : TextFits f.name
  typeName : TextFits f.typeName

structure TypeDecl.Fits (t : TypeDecl) : Prop where
  space : TextFits t.space
  name : TextFits t.name
  base : ∀ b ∈ t.base, b.Fits
  attributes : TableFits TextFits t.attributes
  fields : TableFits FieldDecl.Fits t.fields

structure Registration.Fits (r : Registration) : Prop where
  typeName : TextFits r.typeName
  category : TextFits r.category

structure Module.Fits (m : Module) : Prop where
  magic : m.magic = Module.magicNumber
  format : m.format = Module.currentFormat
  identity : m.identity.Fits
  references : TableFits Identity.Fits m.references
  types : TableFits TypeDecl.Fits m.types
  registrations : TableFits Registration.Fits m.registrations
  sourceFile : ∀ s ∈ m.sourceFile, TextFits s

structure Module.LengthsFit (m : Module) : Prop where
  identity : m.identity.Fits
  references : TableFits Identity.Fits m.references
  types : TableFits TypeDecl.Fits m.types
  registrations : TableFits Registration.Fits m.registrations
  sourceFile : ∀ s ∈ m.sourceFile, TextFits s

theorem Module.LengthsFit.fits {m : Module} (lengths : m.LengthsFit) (magic : m.magic = Module.magicNumber)
    (format : m.format = Module.currentFormat) : m.Fits :=
  ⟨magic, format, lengths.identity, lengths.references, lengths.types, lengths.registrations, lengths.sourceFile⟩

section Decidable

instance (s : String) : Decidable (TextFits s) := inferInstanceAs (Decidable (s.utf8ByteSize < 2 ^ 32))

instance {α : Type} (fits : α → Prop) [DecidablePred fits] (rows : List α) : Decidable (TableFits fits rows) :=
  inferInstanceAs (Decidable (rows.length < 2 ^ 32 ∧ ∀ a ∈ rows, fits a))

instance : DecidablePred Identity.Fits := fun i =>
  decidable_of_iff (TextFits i.name ∧ TextFits i.version) ⟨fun fits => ⟨fits.1, fits.2⟩, fun fits => ⟨fits.1, fits.2⟩⟩

instance : DecidablePred TypeRef.Fits := fun t =>
  decidable_of_iff ((∀ s ∈ t.scope, TextFits s) ∧ TextFits t.space ∧ TextFits t.name)
    ⟨fun fits => ⟨fits.1, fits.2.1, fits.2.2⟩, fun fits => ⟨fits.scope, fits.space, fits.name⟩⟩

instance : DecidablePred FieldDecl.Fits := fun f =>
  decidable_of_iff (TextFits f.name ∧ TextFits f.typeName)
    ⟨fun fits => ⟨fits.1, fits.2⟩, fun fits => ⟨fits.1, fits.2⟩⟩

instance : DecidablePred TypeDecl.Fits := fun t =>
  decidable_of_iff (TextFits t.space ∧ TextFits t.name ∧ (∀ b ∈ t.base, b.Fits) ∧ TableFits TextFits t.attributes ∧
      TableFits FieldDecl.Fits t.fields)
    ⟨fun fits => ⟨fits.1, fits.2.1, fits.2.2.1, fits.2.2.2.1, fits.2.2.2.2⟩,
      fun fits => ⟨fits.space, fits.name, fits.base, fits.attributes, fits.fields⟩⟩

instance : DecidablePred Registration.Fits := fun r =>
  decidable_of_iff (TextFits r.typeName ∧ TextFits r.category)
    ⟨fun fits => ⟨fits.1, fits.2⟩, fun fits => ⟨fits.1, fits.2⟩⟩

instance : DecidablePred Module.LengthsFit := fun m =>
  decidable_of_iff (m.identity.Fits ∧ TableFits Identity.Fits m.references ∧ TableFits TypeDecl.Fits m.types ∧
      TableFits Registration.Fits m.registrations ∧ ∀ s ∈ m.sourceFile, TextFits s)
    ⟨fun fits => ⟨fits.1, fits.2.1, fits.2.2.1, fits.2.2.2.1, fits.2.2.2.2⟩,
      fun fits => ⟨fits.identity, fits.references, fits.types, fits.registrations, fits.sourceFile⟩⟩

end Decidable

structure Writes {α : Type} (encode : α → Bytes) (form : Form α) (fits : α → Prop) : Prop where
  spelt : ∀ a, fits a → form a (encode a)
  fits : ∀ a bytes, form a bytes → fits a

section Writing

variable {α : Type}

theorem text_writes : Writes Field.encodeText Form.text TextFits :=
  ⟨fun _ fits => ⟨fits, rfl⟩, fun _ _ spelt => spelt.1⟩

theorem opt_writes {encode : α → Bytes} {form : Form α} {fits : α → Prop} (writes : Writes encode form fits)
    (encodeOpt : Option α → Bytes) (absent : encodeOpt none = [0])
    (present : ∀ a, encodeOpt (some a) = 1 :: encode a) :
    Writes encodeOpt (Form.opt form) (fun o => ∀ a ∈ o, fits a) := by
  constructor
  · intro o allFit
    cases o with
    | none => exact absent
    | some a => exact ⟨1, encode a, by decide, writes.spelt a (allFit a rfl), present a⟩
  · intro o bytes spelt a member
    cases member
    obtain ⟨_, back, _, inner, _⟩ := spelt
    exact writes.fits a back inner

theorem rows_writes {encode : α → Bytes} {form : Form α} {fits : α → Prop} (writes : Writes encode form fits) :
    Writes (fun as => as.flatMap encode) (Form.rows form) (fun as => ∀ a ∈ as, fits a) := by
  constructor
  · intro as allFit
    induction as with
    | nil => rfl
    | cons a rest ih =>
        have first := writes.spelt a (allFit a List.mem_cons_self)
        have others := ih fun b member => allFit b (List.mem_cons_of_mem a member)
        exact ⟨encode a, rest.flatMap encode, first, others, List.flatMap_cons⟩
  · intro as bytes spelt
    induction as generalizing bytes with
    | nil => simp
    | cons a rest ih =>
        obtain ⟨front, back, first, others, _⟩ := spelt
        exact List.forall_mem_cons.mpr ⟨writes.fits a front first, ih back others⟩

theorem table_writes {encode : α → Bytes} {form : Form α} {fits : α → Prop} (writes : Writes encode form fits) :
    Writes (Field.encodeTable encode) (Form.table form) (TableFits fits) := by
  constructor
  · intro as fits
    exact ⟨fits.1, _, _, rfl, (rows_writes writes).spelt as fits.2, rfl⟩
  · intro as bytes spelt
    obtain ⟨short, _, body, _, speltRows, _⟩ := spelt
    exact ⟨short, (rows_writes writes).fits as body speltRows⟩

theorem identity_writes : Writes Identity.encode Identity.form Identity.Fits := by
  constructor
  · intro i fits
    exact ⟨_, _, text_writes.spelt _ fits.name, text_writes.spelt _ fits.version, rfl⟩
  · intro i bytes spelt
    obtain ⟨_, _, name, version, _⟩ := spelt
    exact ⟨name.1, version.1⟩

theorem type_ref_writes : Writes TypeRef.encode TypeRef.form TypeRef.Fits := by
  have scopes := opt_writes text_writes Field.encodeOptText rfl fun _ => rfl
  constructor
  · intro t fits
    refine ⟨_, _, scopes.spelt _ fits.scope, ⟨_, _, text_writes.spelt _ fits.space, text_writes.spelt _ fits.name, rfl⟩, ?_⟩
    rw [TypeRef.encode, List.append_assoc]
  · intro t bytes spelt
    obtain ⟨_, _, scope, ⟨_, _, space, name, _⟩, _⟩ := spelt
    exact ⟨scopes.fits _ _ scope, space.1, name.1⟩

theorem field_decl_writes : Writes FieldDecl.encode FieldDecl.form FieldDecl.Fits := by
  constructor
  · intro f fits
    exact ⟨_, _, text_writes.spelt _ fits.name, text_writes.spelt _ fits.typeName, rfl⟩
  · intro f bytes spelt
    obtain ⟨_, _, name, typeName, _⟩ := spelt
    exact ⟨name.1, typeName.1⟩

theorem type_decl_writes : Writes TypeDecl.encode TypeDecl.form TypeDecl.Fits := by
  have bases := opt_writes type_ref_writes TypeRef.encodeOpt rfl fun _ => rfl
  constructor
  · intro t fits
    have tables : Form.both (Form.table Form.text t.attributes) (Form.table FieldDecl.form t.fields) _ :=
      ⟨_, _, (table_writes text_writes).spelt _ fits.attributes, (table_writes field_decl_writes).spelt _ fits.fields, rfl⟩
    refine ⟨_, _, text_writes.spelt _ fits.space, ⟨_, _, text_writes.spelt _ fits.name, ⟨_, _, rfl, ⟨_, _,
      bases.spelt _ fits.base, tables, rfl⟩, rfl⟩, rfl⟩, ?_⟩
    simp only [TypeDecl.encode, List.append_assoc]
  · intro t bytes spelt
    obtain ⟨_, _, space, ⟨_, _, name, ⟨_, _, _, ⟨_, _, base, ⟨_, _, attributes, fields, _⟩, _⟩, _⟩, _⟩,
      _⟩ := spelt
    exact ⟨space.1, name.1, bases.fits _ _ base, (table_writes text_writes).fits _ _ attributes,
      (table_writes field_decl_writes).fits _ _ fields⟩

theorem registration_writes : Writes Registration.encode Registration.form Registration.Fits := by
  constructor
  · intro r fits
    exact ⟨_, _, text_writes.spelt _ fits.typeName, text_writes.spelt _ fits.category, rfl⟩
  · intro r bytes spelt
    obtain ⟨_, _, typeName, category, _⟩ := spelt
    exact ⟨typeName.1, category.1⟩

end Writing

namespace Module

theorem payload_spelt (m : Module) (fits : m.Fits) : m.payloadForm m.payload := by
  have sources := opt_writes text_writes Field.encodeOptText rfl fun _ => rfl
  refine ⟨_, _, identity_writes.spelt _ fits.identity, ⟨_, _, (table_writes identity_writes).spelt _ fits.references,
    ⟨_, _, (table_writes type_decl_writes).spelt _ fits.types, ⟨_, _,
      (table_writes registration_writes).spelt _ fits.registrations, sources.spelt _ fits.sourceFile, rfl⟩, rfl⟩,
    rfl⟩, ?_⟩
  simp only [payload, List.append_assoc]

theorem fits_of_payload (m : Module) (bytes : Bytes) (magic : m.magic = magicNumber)
    (format : m.format = currentFormat) (spelt : m.payloadForm bytes) : m.Fits := by
  have sources := opt_writes text_writes Field.encodeOptText rfl fun _ => rfl
  obtain ⟨_, _, identity, ⟨_, _, references, ⟨_, _, types, ⟨_, _, registrations, source, _⟩, _⟩, _⟩, _⟩ :=
    spelt
  exact ⟨magic, format, identity_writes.fits _ _ identity, (table_writes identity_writes).fits _ _ references,
    (table_writes type_decl_writes).fits _ _ types, (table_writes registration_writes).fits _ _ registrations,
    sources.fits _ _ source⟩

def framed (checksum : Bytes → UInt32) (flags : UInt32) (body : Bytes) : Bytes :=
  magicNumber.bytes ++ Bytes.ofWord currentFormat ++ Bytes.ofWord flags
    ++ Bytes.ofWord (checksum body) ++ body

theorem encode_with_framed (checksum : Bytes → UInt32) (m : Module) (magic : m.magic = magicNumber)
    (format : m.format = currentFormat) : m.encodeWith checksum = framed checksum m.flags m.payload := by
  rw [encodeWith, framed, magic, format]

theorem read_with_eq_ok_iff (checksum : Bytes → UInt32) (count : Read Nat) (r after : Reader) (m : Module) :
    readWith checksum count r = .ok (.ok m) after ↔
      ∃ flags mid, r.unread = framed checksum flags mid.unread ∧ mid.position = r.position + 16 ∧
        readPayload count flags mid = .ok m after := by
  rw [read_with_eq, Read.opening_eq_ok_iff]
  constructor
  · intro done
    obtain ⟨rest, unread, done⟩ := done
    obtain ⟨flags, mid, readFlags, done⟩ := (Read.bind_eq_ok_iff _ _ _ _ _).mp done
    obtain ⟨_, rfl, unreadFlags, position⟩ := (Read.accepts_word _ _ _).mp readFlags
    obtain ⟨body, unreadBody, done⟩ := (Read.checked_eq_ok_iff _ _ _).mp done
    refine ⟨flags, ⟨mid.position + 4, body⟩, ?_, ?_, done⟩
    · rw [unread, show rest = _ from unreadFlags, unreadBody]
      simp only [framed, List.append_assoc]
    · rw [position]
      rfl
  · intro framedBody
    obtain ⟨flags, mid, unread, position, done⟩ := framedBody
    simp only [framed, List.append_assoc] at unread
    refine ⟨_, unread, (Read.bind_of_ok (Read.word_ahead flags _ _)).trans ?_⟩
    exact (Read.checked_eq_ok_iff _ _ _).mpr ⟨mid.unread, rfl, position ▸ done⟩

theorem decode_with_eq_ok_iff {count : Read Nat} (counts : Read.Counts count)
    (checksum : Bytes → UInt32) (bytes : Bytes) (m : Module) :
    decodeWith checksum count bytes = .ok m ↔
      m.magic = magicNumber ∧ m.format = currentFormat ∧ ∃ front tail, m.payloadForm front ∧
        bytes = framed checksum m.flags (front ++ tail) := by
  rw [decodeWith, Read.decode_eq_ok_iff]
  constructor
  · intro done
    obtain ⟨after, done⟩ := done
    obtain ⟨flags, mid, unread, _, readRest⟩ := (read_with_eq_ok_iff _ _ _ _ _).mp done
    obtain ⟨front, ⟨magic, format, rfl, spelt⟩, rest, _⟩ :=
      (Read.accepts_payload counts flags _ _ _).mp readRest
    exact ⟨magic, format, front, after.unread, spelt, by rw [← rest]; exact unread⟩
  · intro formed
    obtain ⟨magic, format, front, tail, spelt, rfl⟩ := formed
    refine ⟨⟨16 + front.length, tail⟩, (read_with_eq_ok_iff _ _ _ _ _).mpr
      ⟨m.flags, ⟨16, front ++ tail⟩, rfl, rfl, ?_⟩⟩
    exact (Read.accepts_payload counts m.flags _ _ _).mpr
      ⟨front, ⟨magic, format, rfl, spelt⟩, rfl, rfl⟩

theorem fits_of_decode {checksum : Bytes → UInt32} {bytes : Bytes} {m : Module}
    (read : decodeWith checksum Read.count bytes = .ok m) : m.Fits := by
  obtain ⟨magic, format, front, _, spelt, _⟩ := (decode_with_eq_ok_iff Read.count_counts _ bytes m).mp read
  exact m.fits_of_payload front magic format spelt

-- The checksum may stand there as zero until everything behind the header is written.
theorem patch_encode_with (checksum : Bytes → UInt32) (m : Module) :
    let blank := m.magic.bytes ++ Bytes.ofWord m.format ++ Bytes.ofWord m.flags ++ Bytes.ofWord 0 ++ m.payload
    Bytes.patchWord 12 (checksum (blank.drop 16)) blank = some (m.encodeWith checksum) := by
  intro blank
  have long : 12 + 4 ≤ blank.length := Nat.le_add_left 16 m.payload.length
  rw [Bytes.patchWord, if_pos long]
  rfl

theorem round_trip_iff_fits (checksum : Bytes → UInt32) (m : Module) :
    decodeWith checksum Read.count (m.encodeWith checksum) = .ok m ↔ m.Fits := by
  rw [decode_with_eq_ok_iff Read.count_counts]
  constructor
  · intro accepted
    obtain ⟨magic, format, front, tail, spelt, _⟩ := accepted
    exact m.fits_of_payload front magic format spelt
  · intro fits
    refine ⟨fits.magic, fits.format, m.payload, [], m.payload_spelt fits, ?_⟩
    rw [List.append_nil, encode_with_framed checksum m fits.magic fits.format]

end Module

end Loom
