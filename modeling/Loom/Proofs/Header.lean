import Loom.Proofs.Grammar
import Loom.Symbols

set_option autoImplicit false

/-! The two file formats start alike, with a magic number and a format number, and both have a checksum right ahead of
their payload. -/
namespace Loom

namespace Read

variable {α β : Type}

def opening (expected : Magic) (format : UInt32) (body : Read (Except FormatError α)) :
    Read (Except FormatError α) := do
  let found ← magic
  if found ≠ expected then return .error (.magic found)
  let version ← u32
  if version ≠ format then return .error (.version version)
  body

def checked (checksum : Bytes → UInt32) (payload : Read α) : Read (Except FormatError α) := do
  let stored ← u32
  let computed := checksum (← get).unread
  if stored ≠ computed then return .error (.checksum stored computed)
  return .ok (← payload)

theorem bind_of_ok {p : Read α} {q : α → Read β} {r mid : Reader} {a : α} (done : p r = .ok a mid) :
    (p >>= q) r = q a mid := by
  change EStateM.bind p q r = q a mid
  rw [EStateM.bind, done]

theorem magic_ahead (m : Magic) (position : Nat) (rest : Bytes) :
    magic ⟨position, m.bytes ++ rest⟩ = .ok m ⟨position + 4, rest⟩ := rfl

theorem word_ahead (w : UInt32) (position : Nat) (rest : Bytes) :
    u32 ⟨position, Bytes.ofWord w ++ rest⟩ = .ok w ⟨position + 4, rest⟩ :=
  (accepts_word _ _ _).mpr ⟨_, rfl, rfl, rfl⟩

section Opening

variable {expected : Magic} {format : UInt32} {body : Read (Except FormatError α)} {position : Nat}

theorem opening_wrong_magic {found : Magic} (other : found ≠ expected) (rest : Bytes) :
    opening expected format body ⟨position, found.bytes ++ rest⟩ =
      .ok (.error (.magic found)) ⟨position + 4, rest⟩ := by
  refine (bind_of_ok (magic_ahead found position rest)).trans ?_
  rw [if_pos other]
  rfl

theorem opening_wrong_version {version : UInt32} (other : version ≠ format) (rest : Bytes) :
    opening expected format body ⟨position, expected.bytes ++ (Bytes.ofWord version ++ rest)⟩ =
      .ok (.error (.version version)) ⟨position + 8, rest⟩ := by
  refine (bind_of_ok (magic_ahead expected position _)).trans ?_
  rw [if_neg (not_not_intro rfl)]
  refine (bind_of_ok (word_ahead version _ rest)).trans ?_
  rw [if_pos other]
  rfl

theorem opening_passed (rest : Bytes) :
    opening expected format body ⟨position, expected.bytes ++ (Bytes.ofWord format ++ rest)⟩ =
      body ⟨position + 8, rest⟩ := by
  refine (bind_of_ok (magic_ahead expected position _)).trans ?_
  rw [if_neg (not_not_intro rfl)]
  refine (bind_of_ok (word_ahead format _ rest)).trans ?_
  rw [if_neg (not_not_intro rfl)]

theorem opening_eq_ok_iff (r after : Reader) (a : α) : opening expected format body r = .ok (.ok a) after ↔
    ∃ rest, r.unread = expected.bytes ++ (Bytes.ofWord format ++ rest) ∧
      body ⟨r.position + 8, rest⟩ = .ok (.ok a) after := by
  constructor
  · intro done
    obtain ⟨found, mid, readMagic, done⟩ := (bind_eq_ok_iff _ _ _ _ _).mp done
    obtain ⟨_, rfl, unread, positionMid⟩ := (accepts_magic _ _ _).mp readMagic
    split at done
    · cases done
    · rename_i sameMagic
      obtain ⟨version, last, readVersion, done⟩ := (bind_eq_ok_iff _ _ _ _ _).mp done
      obtain ⟨_, rfl, unreadMid, positionLast⟩ := (accepts_word _ _ _).mp readVersion
      split at done
      · cases done
      · rename_i sameVersion
        rw [positionMid] at positionLast
        refine ⟨last.unread, ?_, ?_⟩
        · rw [unread, unreadMid, Decidable.not_not.mp sameMagic, Decidable.not_not.mp sameVersion]
        · rw [← done]
          exact congrArg body (congrArg (Reader.mk · last.unread) positionLast.symm)
  · intro framed
    obtain ⟨rest, unread, done⟩ := framed
    obtain ⟨position, _⟩ := r
    cases unread
    exact (opening_passed rest).trans done

end Opening

section Checked

variable {checksum : Bytes → UInt32} {payload : Read α} {position : Nat}

theorem checked_wrong {stored : UInt32} {body : Bytes} (other : stored ≠ checksum body) :
    checked checksum payload ⟨position, Bytes.ofWord stored ++ body⟩ =
      .ok (.error (.checksum stored (checksum body))) ⟨position + 4, body⟩ := by
  refine (bind_of_ok (word_ahead stored position body)).trans ?_
  refine (bind_of_ok rfl).trans ?_
  rw [if_pos other]
  rfl

theorem checked_passed (body : Bytes) :
    checked checksum payload ⟨position, Bytes.ofWord (checksum body) ++ body⟩ =
      (payload >>= fun a => pure (.ok a)) ⟨position + 4, body⟩ := by
  refine (bind_of_ok (word_ahead (checksum body) position body)).trans ?_
  refine (bind_of_ok rfl).trans ?_
  rw [if_neg (not_not_intro rfl)]

theorem checked_eq_ok_iff (r after : Reader) (a : α) : checked checksum payload r = .ok (.ok a) after ↔
    ∃ body, r.unread = Bytes.ofWord (checksum body) ++ body ∧ payload ⟨r.position + 4, body⟩ = .ok a after := by
  constructor
  · intro done
    obtain ⟨stored, mid, readStored, done⟩ := (bind_eq_ok_iff _ _ _ _ _).mp done
    obtain ⟨_, rfl, unread, position⟩ := (accepts_word _ _ _).mp readStored
    obtain ⟨_, _, got, done⟩ := (bind_eq_ok_iff _ _ _ _ _).mp done
    cases got
    split at done
    · cases done
    · rename_i same
      obtain ⟨_, _, read, made⟩ := (bind_eq_ok_iff _ _ _ _ _).mp done
      cases made
      refine ⟨mid.unread, by rw [unread, Decidable.not_not.mp same], ?_⟩
      rw [← read]
      exact congrArg payload (congrArg (Reader.mk · mid.unread) position.symm)
  · intro framed
    obtain ⟨body, unread, done⟩ := framed
    obtain ⟨position, _⟩ := r
    cases unread
    exact (checked_passed body).trans ((bind_of_ok done).trans rfl)

end Checked

theorem decode_of_ok {read : Read (Except FormatError α)} {bytes : Bytes} {result : Except FormatError α}
    {after : Reader} (done : read (Reader.start bytes) = .ok result after) : read.decode bytes = result := by
  rw [decode, done]

theorem decode_of_error {read : Read (Except FormatError α)} {bytes : Bytes} {error : DecodeError}
    {after : Reader} (failed : read (Reader.start bytes) = .error error after) :
    read.decode bytes = .error (.malformed error) := by
  rw [decode, failed]

theorem decode_eq_ok_iff {read : Read (Except FormatError α)} {bytes : Bytes} {a : α} :
    read.decode bytes = .ok a ↔ ∃ after, read (Reader.start bytes) = .ok (.ok a) after := by
  unfold decode
  cases read (Reader.start bytes) with
  | ok result after => simp
  | error e after => simp

end Read

theorem Module.read_with_eq (checksum : Bytes → UInt32) (count : Read Nat) :
    readWith checksum count = Read.opening magicNumber currentFormat
      (Read.u32 >>= fun flags => Read.checked checksum (readPayload count flags)) := rfl

theorem SymbolTable.read_with_eq (checksum : Bytes → UInt32) (count : Read Nat) :
    readWith checksum count =
      Read.opening magicNumber currentFormat (Read.checked checksum (readPayload count)) := rfl

end Loom
