import Loom.Proofs.Acceptance
import Loom.Proofs.SymbolFormat

set_option autoImplicit false

/-! Room for rows is reserved before they are read, and no file makes a reader reserve more room than it has bytes
left. -/
namespace Loom

structure Reservation where
  rows : Nat
  unread : Nat
deriving DecidableEq, Repr

structure Tally where
  reader : Reader
  reserved : List Reservation

abbrev Tallied := EStateM DecodeError Tally

namespace Tallied

section Formats

variable {α : Type}

def noted (reserved : List Reservation) : EStateM.Result DecodeError Reader α → EStateM.Result DecodeError Tally α
  | .ok a after => .ok a ⟨after, reserved⟩
  | .error e after => .error e ⟨after, reserved⟩

def plain (read : Read α) : Tallied α := fun t => noted t.reserved (read t.reader)

def reserve (rows : Nat) : Tallied Unit := fun t =>
  .ok () { t with reserved := t.reserved ++ [⟨rows, t.reader.remaining⟩] }

def rows (row : Tallied α) : Nat → Tallied (List α)
  | 0 => return []
  | n + 1 => do
    let first ← row
    return first :: (← rows row n)

def table (count : Read Nat) (row : Tallied α) : Tallied (List α) := do
  let n ← plain count
  reserve n
  rows row n

def opening (expected : Magic) (format : UInt32) (body : Tallied (Except FormatError α)) :
    Tallied (Except FormatError α) := do
  let found ← plain Read.magic
  if found ≠ expected then return .error (.magic found)
  let version ← plain Read.u32
  if version ≠ format then return .error (.version version)
  body

def checked (checksum : Bytes → UInt32) (payload : Tallied α) : Tallied (Except FormatError α) := do
  let stored ← plain Read.u32
  let computed := checksum (← plain get).unread
  if stored ≠ computed then return .error (.checksum stored computed)
  return .ok (← payload)

def typeDecl (count : Read Nat) : Tallied TypeDecl := do
  let space ← plain Read.text
  let name ← plain Read.text
  let kind ← plain TypeKind.read
  let base ← plain TypeRef.readOpt
  let attributes ← table count (plain Read.text)
  let fields ← table count (plain FieldDecl.read)
  return ⟨space, name, kind, base, attributes, fields⟩

def modulePayload (count : Read Nat) (flags : UInt32) : Tallied Module := do
  let identity ← plain Identity.read
  let references ← table count (plain Identity.read)
  let types ← table count (typeDecl count)
  let registrations ← table count (plain Registration.read)
  let sourceFile ← plain Read.optText
  return ⟨Module.magicNumber, Module.currentFormat, flags, identity, references, types, registrations, sourceFile⟩

def module (checksum : Bytes → UInt32) (count : Read Nat) : Tallied (Except FormatError Module) :=
  opening Module.magicNumber Module.currentFormat do
    let flags ← plain Read.u32
    checked checksum (modulePayload count flags)

def symbolPayload (count : Read Nat) : Tallied SymbolTable := do
  let moduleName ← plain Read.text
  let entries ← table count (plain SymbolEntry.read)
  return ⟨moduleName, entries⟩

def symbolTable (checksum : Bytes → UInt32) (count : Read Nat) : Tallied (Except FormatError SymbolTable) :=
  opening SymbolTable.magicNumber SymbolTable.currentFormat (checked checksum (symbolPayload count))

def run (tallied : Tallied α) (bytes : Bytes) : EStateM.Result DecodeError Reader α × List Reservation :=
  match tallied ⟨Reader.start bytes, []⟩ with
  | .ok a t => (.ok a t.reader, t.reserved)
  | .error e t => (.error e t.reader, t.reserved)

end Formats

end Tallied

def Reservation.Covered (r : Reservation) : Prop := r.rows ≤ r.unread

namespace Tallied

variable {α β : Type}

-- The tally is kept beside the read, which goes its way all the same; what is added to it is covered by the bytes
-- that were unread at the time.
def Tallies (tallied : Tallied α) (read : Read α) : Prop :=
  ∀ t, ∃ more, (∀ r ∈ more, r.Covered) ∧ tallied t = noted (t.reserved ++ more) (read t.reader)

theorem tallies_plain (read : Read α) : Tallies (plain read) read := by
  intro t
  exact ⟨[], fun _ member => absurd member List.not_mem_nil, by rw [List.append_nil]; rfl⟩

theorem tallies_pure (a : α) : Tallies (pure a) (pure a) := tallies_plain (pure a)

theorem tallies_bind {p : Tallied α} {q : α → Tallied β} {read : Read α} {next : α → Read β}
    (first : Tallies p read) (second : ∀ a, Tallies (q a) (next a)) : Tallies (p >>= q) (read >>= next) := by
  intro t
  obtain ⟨more, covered, eq⟩ := first t
  change ∃ _, _ ∧ EStateM.bind p q t = noted _ (EStateM.bind read next t.reader)
  unfold EStateM.bind
  rw [eq]
  cases read t.reader with
  | error e after => exact ⟨more, covered, rfl⟩
  | ok a mid =>
      obtain ⟨later, coveredLater, eqLater⟩ := second a ⟨mid, t.reserved ++ more⟩
      refine ⟨more ++ later, ?_, ?_⟩
      · intro r member
        exact (List.mem_append.mp member).elim (covered r) (coveredLater r)
      · rw [← List.append_assoc]
        exact eqLater

theorem tallies_rows {row : Tallied α} {read : Read α} (tallies : Tallies row read) (n : Nat) :
    Tallies (rows row n) (Read.rows read n) := by
  induction n with
  | zero => exact tallies_pure []
  | succ n ih => exact tallies_bind tallies fun first => tallies_bind ih fun others => tallies_pure (first :: others)

theorem tallies_opening {expected : Magic} {format : UInt32} {body : Tallied (Except FormatError α)}
    {read : Read (Except FormatError α)} (inner : Tallies body read) :
    Tallies (opening expected format body) (Read.opening expected format read) := by
  refine tallies_bind (tallies_plain Read.magic) fun found => ?_
  split
  · exact tallies_pure _
  · refine tallies_bind (tallies_plain Read.u32) fun version => ?_
    split
    · exact tallies_pure _
    · exact inner

theorem tallies_checked (checksum : Bytes → UInt32) {payload : Tallied α} {read : Read α}
    (inner : Tallies payload read) : Tallies (checked checksum payload) (Read.checked checksum read) := by
  refine tallies_bind (tallies_plain Read.u32) fun stored => tallies_bind (tallies_plain get) fun ahead => ?_
  dsimp only
  split
  · exact tallies_pure _
  · exact tallies_bind inner fun a => tallies_pure _

section Counted

variable {count : Read Nat} (guarded : ∀ r n after, count r = .ok n after → n ≤ after.unread.length)

include guarded

theorem tallies_table {row : Tallied α} {read : Read α} (tallies : Tallies row read) :
    Tallies (table count row) (Read.table count read) := by
  -- The reservation follows the check at once, so what was checked still holds.
  intro t
  change ∃ _, _ ∧ EStateM.bind (plain count) _ t = noted _ (EStateM.bind count _ t.reader)
  unfold EStateM.bind plain
  cases counted : count t.reader with
  | error e after => exact ⟨[], fun _ member => absurd member List.not_mem_nil, by rw [List.append_nil]; rfl⟩
  | ok n after =>
      obtain ⟨more, covered, eq⟩ := tallies_rows tallies n ⟨after, t.reserved ++ [⟨n, after.remaining⟩]⟩
      refine ⟨⟨n, after.remaining⟩ :: more, ?_, ?_⟩
      · exact List.forall_mem_cons.mpr ⟨guarded _ n after counted, covered⟩
      · rw [List.append_cons]
        exact eq

theorem tallies_type : Tallies (typeDecl count) (TypeDecl.read count) :=
  tallies_bind (tallies_plain _) fun _ => tallies_bind (tallies_plain _) fun _ => tallies_bind (tallies_plain _) fun _ =>
    tallies_bind (tallies_plain _) fun _ => tallies_bind (tallies_table guarded (tallies_plain _)) fun _ =>
      tallies_bind (tallies_table guarded (tallies_plain _)) fun _ => tallies_pure _

theorem tallies_module_payload (flags : UInt32) : Tallies (modulePayload count flags) (Module.readPayload count flags) :=
  tallies_bind (tallies_plain _) fun _ => tallies_bind (tallies_table guarded (tallies_plain _)) fun _ =>
    tallies_bind (tallies_table guarded (tallies_type guarded)) fun _ =>
      tallies_bind (tallies_table guarded (tallies_plain _)) fun _ => tallies_bind (tallies_plain _) fun _ =>
        tallies_pure _

theorem tallies_symbol_payload : Tallies (symbolPayload count) (SymbolTable.readPayload count) :=
  tallies_bind (tallies_plain _) fun _ => tallies_bind (tallies_table guarded (tallies_plain _)) fun _ => tallies_pure _

theorem tallies_module (checksum : Bytes → UInt32) : Tallies (module checksum count) (Module.readWith checksum count) := by
  rw [Module.read_with_eq]
  exact tallies_opening (tallies_bind (tallies_plain _) fun flags =>
    tallies_checked checksum (tallies_module_payload guarded flags))

theorem tallies_symbol_table (checksum : Bytes → UInt32) :
    Tallies (symbolTable checksum count) (SymbolTable.readWith checksum count) := by
  rw [SymbolTable.read_with_eq]
  exact tallies_opening (tallies_checked checksum (tallies_symbol_payload guarded))

end Counted

theorem run_of_tallies {tallied : Tallied α} {read : Read α} (tallies : Tallies tallied read) (bytes : Bytes) :
    (run tallied bytes).1 = read (Reader.start bytes) ∧ ∀ r ∈ (run tallied bytes).2, r.Covered := by
  obtain ⟨more, covered, eq⟩ := tallies ⟨Reader.start bytes, []⟩
  unfold run
  rw [eq]
  cases read (Reader.start bytes) with
  | ok a after => exact ⟨rfl, covered⟩
  | error e after => exact ⟨rfl, covered⟩

end Tallied

/-- Where a number of rows is checked, all that is reserved on the way is covered by unread bytes, also in a run that
fails. -/
theorem count_guard_conservative (checksum : Bytes → UInt32) (bytes : Bytes) :
    (∀ m, Module.decodeWith checksum Read.count bytes = .ok m ↔
      Module.decodeWith checksum Read.plainCount bytes = .ok m) ∧
    (∀ t, SymbolTable.decodeWith checksum Read.count bytes = .ok t ↔
      SymbolTable.decodeWith checksum Read.plainCount bytes = .ok t) ∧
    ((Tallied.run (Tallied.module checksum Read.count) bytes).1 =
        Module.readWith checksum Read.count (Reader.start bytes) ∧
      ∀ r ∈ (Tallied.run (Tallied.module checksum Read.count) bytes).2, r.rows ≤ r.unread) ∧
    (Tallied.run (Tallied.symbolTable checksum Read.count) bytes).1 =
        SymbolTable.readWith checksum Read.count (Reader.start bytes) ∧
      ∀ r ∈ (Tallied.run (Tallied.symbolTable checksum Read.count) bytes).2, r.rows ≤ r.unread := by
  have guarded : ∀ r n after, Read.count r = .ok n after → n ≤ after.unread.length := fun _ _ _ => Read.room_of_count
  refine ⟨fun m => ?_, fun t => ?_, ?_, ?_⟩
  · rw [Module.decode_with_eq_ok_iff Read.count_counts, Module.decode_with_eq_ok_iff Read.plain_count_counts]
  · rw [SymbolTable.decode_with_eq_ok_iff Read.count_counts, SymbolTable.decode_with_eq_ok_iff Read.plain_count_counts]
  · exact Tallied.run_of_tallies (Tallied.tallies_module guarded checksum) bytes
  · exact Tallied.run_of_tallies (Tallied.tallies_symbol_table guarded checksum) bytes

-- Two entries are said to follow where ten bytes are left. Without the check, room is reserved for two million.
example :
    let blind : Bytes → UInt32 := fun _ => 0
    let header := SymbolTable.magicNumber.bytes ++ Bytes.ofWord 1 ++ Bytes.ofWord 0 ++ Field.encodeText "Game"
    let ten := List.replicate 10 0
    (Tallied.run (Tallied.symbolTable blind Read.count) (header ++ Bytes.ofWord 2 ++ ten)).2 = [⟨2, 10⟩] ∧
    (Tallied.run (Tallied.symbolTable blind Read.count) (header ++ Bytes.ofWord 2000000 ++ ten)).2 = [] ∧
    (Tallied.run (Tallied.symbolTable blind Read.plainCount) (header ++ Bytes.ofWord 2000000 ++ ten)).2 =
      [⟨2000000, 10⟩] := by
  decide +kernel

end Loom
