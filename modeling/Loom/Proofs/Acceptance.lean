import Loom.Proofs.ClosedReads
import Loom.Proofs.RoundTrip

set_option autoImplicit false

namespace Loom

namespace Form

def OneLength (words : Bytes → Prop) : Prop := ∀ bytes other, words bytes → words other → bytes.length = other.length

theorem one_length_both {first second : Bytes → Prop} (front : OneLength first) (back : OneLength second) :
    OneLength (both first second) := by
  intro bytes other spelt again
  obtain ⟨a, b, speltFirst, speltSecond, rfl⟩ := spelt
  obtain ⟨c, d, againFirst, againSecond, rfl⟩ := again
  rw [List.length_append, List.length_append, front a c speltFirst againFirst, back b d speltSecond againSecond]

theorem one_length_text (s : String) : OneLength (text s) := by
  intro bytes other spelt again
  rw [spelt.2, again.2]

variable {α : Type} {form : Form α}

theorem one_length_opt (sized : ∀ a, OneLength (form a)) (o : Option α) : OneLength (opt form o) := by
  intro bytes other spelt again
  cases o with
  | none => rw [show bytes = [0] from spelt, show other = [0] from again]
  | some a =>
      obtain ⟨_, back, _, inner, rfl⟩ := spelt
      obtain ⟨_, rest, _, innerAgain, rfl⟩ := again
      rw [List.length_cons, List.length_cons, sized a back rest inner innerAgain]

theorem one_length_rows (sized : ∀ a, OneLength (form a)) (as : List α) : OneLength (rows form as) := by
  induction as with
  | nil =>
      intro bytes other spelt again
      rw [show bytes = [] from spelt, show other = [] from again]
  | cons a rest ih => exact one_length_both (sized a) ih

theorem one_length_table (sized : ∀ a, OneLength (form a)) (as : List α) : OneLength (table form as) := by
  intro bytes other spelt again
  obtain ⟨_, _, body, rfl, speltRows, rfl⟩ := spelt
  obtain ⟨_, _, rest, rfl, againRows, rfl⟩ := again
  rw [List.length_append, List.length_append, one_length_rows sized as body rest speltRows againRows]

end Form

section Words

open Form

theorem TypeKind.one_length_form (kind : TypeKind) : OneLength (TypeKind.form kind) := by
  intro bytes other spelt again
  rw [show bytes = [kind.tag] from spelt, show other = [kind.tag] from again]

theorem TypeRef.one_length_form (t : TypeRef) : OneLength (TypeRef.form t) :=
  one_length_both (one_length_opt one_length_text t.scope)
    (one_length_both (one_length_text t.space) (one_length_text t.name))

theorem one_length_pair {α : Type} (first second : α → String) (a : α) :
    OneLength (both (text (first a)) (text (second a))) :=
  one_length_both (one_length_text (first a)) (one_length_text (second a))

theorem TypeDecl.one_length_form (t : TypeDecl) : OneLength (TypeDecl.form t) :=
  one_length_both (one_length_text t.space) <| one_length_both (one_length_text t.name) <|
    one_length_both (TypeKind.one_length_form t.kind) <|
      one_length_both (one_length_opt TypeRef.one_length_form t.base) <|
        one_length_both (one_length_table one_length_text t.attributes)
          (one_length_table (one_length_pair FieldDecl.name FieldDecl.typeName) t.fields)

theorem Module.one_length_payload (m : Module) : OneLength m.payloadForm :=
  one_length_both (one_length_pair Identity.name Identity.version m.identity) <|
    one_length_both (one_length_table (one_length_pair Identity.name Identity.version) m.references) <|
      one_length_both (one_length_table TypeDecl.one_length_form m.types) <|
        one_length_both
          (one_length_table (one_length_pair Registration.typeName Registration.category) m.registrations)
          (one_length_opt one_length_text m.sourceFile)

end Words

def Reader.Onto (r after : Reader) : Prop :=
  ∃ front, r.unread = front ++ after.unread ∧ after.position = r.position + front.length

theorem Reader.onto_refl (r : Reader) : r.Onto r := ⟨[], rfl, rfl⟩

theorem Reader.onto_trans {r mid after : Reader} (first : r.Onto mid) (second : mid.Onto after) : r.Onto after := by
  obtain ⟨front, unread, position⟩ := first
  obtain ⟨next, unreadNext, positionNext⟩ := second
  refine ⟨front ++ next, ?_, ?_⟩
  · rw [unread, unreadNext, List.append_assoc]
  · rw [positionNext, position, List.length_append, Nat.add_assoc]

theorem Reader.onto_start {bytes : Bytes} {r : Reader} (onto : (Reader.start bytes).Onto r) :
    r.position ≤ bytes.length ∧ r.unread = bytes.drop r.position := by
  obtain ⟨front, unread, position⟩ := onto
  have whole : bytes = front ++ r.unread := unread
  have taken : r.position = front.length := position.trans (Nat.zero_add _)
  constructor
  · rw [whole, taken, List.length_append]
    exact Nat.le_add_right _ _
  · rw [taken, whole, List.drop_left]

namespace Read

variable {α β : Type}

def leaves (read : Read α) (r : Reader) : Reader :=
  match read r with
  | .ok _ after => after
  | .error _ after => after

def Advances (read : Read α) : Prop := ∀ r : Reader, r.Onto (read.leaves r)

theorem leaves_bind (p : Read α) (q : α → Read β) (r : Reader) :
    (p >>= q).leaves r = match p r with
      | .ok a mid => (q a).leaves mid
      | .error _ mid => mid := by
  change (match EStateM.bind p q r with | .ok _ after => after | .error _ after => after) = _
  unfold EStateM.bind
  cases p r <;> rfl

theorem advances_bind {p : Read α} {q : α → Read β} (first : Advances p) (second : ∀ a, Advances (q a)) :
    Advances (p >>= q) := by
  intro r
  have onto := first r
  rw [leaves] at onto
  rw [leaves_bind]
  cases done : p r with
  | ok a mid =>
      rw [done] at onto
      exact Reader.onto_trans onto (second a mid)
  | error e mid =>
      rw [done] at onto
      exact onto

theorem advances_pure (a : α) : Advances (pure a) := Reader.onto_refl

theorem advances_throw (e : DecodeError) : Advances (throw e : Read α) := Reader.onto_refl

theorem advances_position : Advances position := Reader.onto_refl

theorem advances_get : Advances (get : Read Reader) := Reader.onto_refl

theorem advances_u8 : Advances u8 := by
  intro r
  unfold leaves u8
  cases ahead : r.unread with
  | nil => exact Reader.onto_refl r
  | cons b rest => exact ⟨[b], ahead, rfl⟩

theorem advances_word : Advances u32 := by
  intro r
  unfold leaves u32
  match ahead : r.unread with
  | [] | [_] | [_, _] | [_, _, _] => exact Reader.onto_refl r
  | a :: b :: c :: d :: rest => exact ⟨[a, b, c, d], ahead, rfl⟩

theorem advances_magic : Advances magic := by
  intro r
  unfold leaves magic
  match ahead : r.unread with
  | [] | [_] | [_, _] | [_, _, _] => exact Reader.onto_refl r
  | a :: b :: c :: d :: rest => exact ⟨[a, b, c, d], ahead, rfl⟩

theorem advances_bytes (n : Nat) : Advances (bytes n) := by
  intro r
  unfold leaves bytes
  rw [Bytes.split_exact_eq]
  by_cases fits : n ≤ r.unread.length
  · rw [if_pos fits]
    exact ⟨r.unread.take n, (List.take_append_drop n _).symm, by rw [List.length_take, Nat.min_eq_left fits]⟩
  · rw [if_neg fits]
    exact Reader.onto_refl r

theorem closed_advances : Closed Advances where
  pure := advances_pure
  throw := advances_throw
  bind := advances_bind
  position := advances_position
  u8 := advances_u8
  word := advances_word
  bytes := advances_bytes

theorem advances_guard (offset n : Nat) :
    Advances fun r => if Bytes.atLeast n r.unread then .ok n r else .error (.unexpectedEnd offset) r := by
  intro r
  unfold leaves
  by_cases fits : Bytes.atLeast n r.unread = true
  · simp only [if_pos fits]
    exact Reader.onto_refl r
  · simp only [if_neg fits]
    exact Reader.onto_refl r

theorem advances_count : Advances count :=
  advances_bind advances_position fun offset => advances_bind advances_word fun n => advances_guard offset n.toNat

theorem advances_opening {expected : Magic} {format : UInt32} {body : Read (Except FormatError α)}
    (inner : Advances body) : Advances (opening expected format body) := by
  refine advances_bind advances_magic fun found => ?_
  split
  · exact advances_pure _
  · refine advances_bind advances_word fun version => ?_
    split
    · exact advances_pure _
    · exact inner

theorem advances_checked (checksum : Bytes → UInt32) {payload : Read α} (inner : Advances payload) :
    Advances (checked checksum payload) := by
  refine advances_bind advances_word fun stored => advances_bind advances_get fun ahead => ?_
  dsimp only
  split
  · exact advances_pure _
  · exact advances_bind inner fun a => advances_pure _

theorem advances_module (checksum : Bytes → UInt32) {number : Read Nat} (counts : Advances number) :
    Advances (Module.readWith checksum number) := by
  rw [Module.read_with_eq]
  exact advances_opening <| advances_bind advances_word fun flags =>
    advances_checked checksum (closed_advances.payload counts flags)

theorem bind_congr_ok {p : Read α} {q q' : α → Read β} {r : Reader}
    (same : ∀ a mid, p r = .ok a mid → q a mid = q' a mid) : (p >>= q) r = (p >>= q') r := by
  change EStateM.bind p q r = EStateM.bind p q' r
  unfold EStateM.bind
  cases done : p r with
  | ok a mid => exact same a mid done
  | error e mid => rfl

theorem opening_congr {expected : Magic} {format : UInt32} {body other : Read (Except FormatError α)} {r : Reader}
    (same : ∀ mid : Reader, r.unread = expected.bytes ++ (Bytes.ofWord format ++ mid.unread) → body mid = other mid) :
    opening expected format body r = opening expected format other r := by
  refine bind_congr_ok fun found r₁ readMagic => ?_
  split
  · rfl
  · rename_i sameMagic
    refine bind_congr_ok fun version r₂ readVersion => ?_
    split
    · rfl
    · rename_i sameVersion
      obtain ⟨_, rfl, unread, _⟩ := (accepts_magic _ _ _).mp readMagic
      obtain ⟨_, rfl, unreadNext, _⟩ := (accepts_word _ _ _).mp readVersion
      apply same
      rw [unread, unreadNext, Decidable.not_not.mp sameMagic, Decidable.not_not.mp sameVersion]

theorem checked_congr {checksum other : Bytes → UInt32} {payload : Read α} {r : Reader}
    (same : ∀ stored body, r.unread = Bytes.ofWord stored ++ body → checksum body = other body) :
    checked checksum payload r = checked other payload r := by
  refine bind_congr_ok fun stored mid readStored => bind_congr_ok fun ahead _ got => ?_
  cases got
  obtain ⟨_, rfl, unread, _⟩ := (accepts_word _ _ _).mp readStored
  simp only [same stored mid.unread unread]

end Read

namespace Module

theorem read_with_congr (checksum other : Bytes → UInt32) (count : Read Nat) (bytes : Bytes)
    (same : 16 ≤ bytes.length → checksum (bytes.drop 16) = other (bytes.drop 16)) :
    readWith checksum count (Reader.start bytes) = readWith other count (Reader.start bytes) := by
  rw [read_with_eq, read_with_eq]
  refine Read.opening_congr fun r unread => Read.bind_congr_ok fun flags mid readFlags =>
    Read.checked_congr fun stored body unreadStored => ?_
  obtain ⟨_, rfl, unreadFlags, _⟩ := (Read.accepts_word _ _ _).mp readFlags
  have header : bytes = (magicNumber.bytes ++ Bytes.ofWord currentFormat ++ Bytes.ofWord flags ++ Bytes.ofWord stored)
      ++ body := by
    rw [show bytes = (Reader.start bytes).unread from rfl, unread, unreadFlags, unreadStored]
    simp only [List.append_assoc]
  have whole : 16 ≤ bytes.length := by
    rw [header, List.length_append]
    exact Nat.le_add_right 16 _
  have behind : bytes.drop 16 = body := by
    rw [header]
    rfl
  rw [← behind]
  exact same whole

theorem read_encode_with (checksum : Bytes → UInt32) {m : Module} (fits : m.Fits) :
    readWith checksum Read.count (Reader.start (m.encodeWith checksum)) =
      .ok (.ok m) ⟨16 + m.payload.length, []⟩ := by
  rw [encode_with_framed checksum m fits.magic fits.format]
  refine (read_with_eq_ok_iff _ _ _ _ _).mpr ⟨m.flags, ⟨16, m.payload⟩, rfl, rfl, ?_⟩
  exact (Read.accepts_payload Read.count_counts m.flags _ _ _).mpr
    ⟨m.payload, ⟨fits.magic, fits.format, rfl, m.payload_spelt fits⟩, (List.append_nil _).symm, rfl⟩

theorem decode_encode_with (checksum : Bytes → UInt32) {m : Module} (fits : m.Fits) :
    decodeWith checksum Read.count (m.encodeWith checksum) = .ok m :=
  Read.decode_of_ok (read_encode_with checksum fits)

/-- The word that is read may differ from the one that is written in its presence bytes alone, so writing gives no
more bytes than were read. The checksum sees those behind the header only if all of the header is there. -/
theorem decode_accepts_iff (checksum : Bytes → UInt32) (bytes : Bytes) (m : Module) :
    (decodeWith checksum Read.count bytes = .ok m ↔
      m.magic = magicNumber ∧ m.format = currentFormat ∧ ∃ payload tail, m.payloadForm payload ∧
        bytes = magicNumber.bytes ++ Bytes.ofWord currentFormat ++ Bytes.ofWord m.flags
          ++ Bytes.ofWord (checksum (payload ++ tail)) ++ (payload ++ tail)) ∧
    (decodeWith checksum Read.count bytes = .ok m →
      (m.encodeWith checksum).length ≤ bytes.length ∧
      decodeWith checksum Read.count (m.encodeWith checksum) = .ok m ∧
      ∀ again, decodeWith checksum Read.count (m.encodeWith checksum) = .ok again →
        again.encodeWith checksum = m.encodeWith checksum) ∧
    ((readWith checksum Read.count).leaves (Reader.start bytes)).position ≤ bytes.length ∧
    ∀ other : Bytes → UInt32, (16 ≤ bytes.length → checksum (bytes.drop 16) = other (bytes.drop 16)) →
      decodeWith other Read.count bytes = decodeWith checksum Read.count bytes := by
  refine ⟨decode_with_eq_ok_iff Read.count_counts checksum bytes m, fun accepted => ?_, ?_, fun other same => ?_⟩
  · obtain ⟨magic, format, payload, tail, spelt, whole⟩ :=
      (decode_with_eq_ok_iff Read.count_counts checksum bytes m).mp accepted
    have fits := m.fits_of_payload payload magic format spelt
    have reread := decode_encode_with checksum fits
    have sameLength := m.one_length_payload m.payload payload (m.payload_spelt fits) spelt
    refine ⟨?_, reread, fun again found => ?_⟩
    · rw [whole, encode_with_framed checksum m magic format]
      simp only [framed, List.length_append, Bytes.length_of_word]
      omega
    · cases reread.symm.trans found
      rfl
  · have onto := Read.advances_module checksum Read.advances_count (Reader.start bytes)
    exact (Reader.onto_start onto).1
  · unfold decodeWith Read.decode
    rw [read_with_congr checksum other Read.count bytes same]

end Module

end Loom
