import Loom.Proofs.FirstPlace
import Loom.Proofs.Verification

set_option autoImplicit false

namespace Loom.Module

section Scan

variable (rule : List String → String → Option VerifyError)

def firstBreach (seen : List String) : List String → Option VerifyError
  | [] => none
  | name :: rest =>
    match rule seen name with
    | some error => some error
    | none => firstBreach (name :: seen) rest

def breachAt (seen names : List String) (i : Nat) : Option VerifyError :=
  names[i]?.bind (rule ((names.take i).reverse ++ seen))

theorem first_breach_eq (seen names : List String) :
    firstBreach rule seen names = firstBy (fun earlier => rule earlier.reverse) seen.reverse names := by
  -- The rule has the names the other way round.
  induction names generalizing seen with
  | nil => rfl
  | cons name rest ih =>
      rw [firstBreach, firstBy, List.reverse_reverse, ih, List.reverse_cons]
      cases rule seen name <;> rfl

theorem breach_at_eq (seen names : List String) :
    breachAt rule seen names = foundAt (fun earlier => rule earlier.reverse) seen.reverse names := by
  funext i
  rw [breachAt, foundAt, List.reverse_append, List.reverse_reverse]

theorem first_breach_eq_some_iff (seen names : List String) (error : VerifyError) :
    firstBreach rule seen names = some error ↔ FirstOf (breachAt rule seen names) error := by
  rw [first_breach_eq, breach_at_eq]
  exact first_by_eq_some_iff _ _ _ _

variable {rule} {α : Type} {entries : List α} {nameOf : α → String} {i : Nat}

theorem breach_at_entry_iff {error : VerifyError} :
    breachAt rule [] (entries.map nameOf) i = some error ↔
      ∃ entry, entries[i]? = some entry ∧ rule ((entries.take i).map nameOf).reverse (nameOf entry) = some error := by
  rw [breachAt, List.append_nil, List.getElem?_map, ← List.map_take, Option.bind_map, Option.bind_eq_some_iff]
  rfl

theorem mem_seen_iff {name : String} :
    name ∈ ((entries.take i).map nameOf).reverse ↔ ∃ earlier ∈ entries.take i, nameOf earlier = name := by
  rw [List.mem_reverse, List.mem_map]

end Scan

def typeRule (seen : List String) (name : String) : Option VerifyError :=
  if name ∈ seen then some (.duplicateType name) else none

def referenceRule (own : String) (seen : List String) (name : String) : Option VerifyError :=
  if name = own then some (.selfReference name)
  else if name ∈ seen then some (.duplicateReference name)
  else none

def registrationRule (declared seen : List String) (name : String) : Option VerifyError :=
  if name ∉ declared then some (.unknownRegistration name)
  else if name ∈ seen then some (.duplicateRegistration name)
  else none

theorem first_repeated_eq (seen names : List String) :
    (firstRepeated seen names).map .duplicateType = firstBreach typeRule seen names := by
  induction names generalizing seen with
  | nil => rfl
  | cons name rest ih =>
      rw [firstRepeated, firstBreach, typeRule, ← ih]
      by_cases again : name ∈ seen
      · simp [again]
      · simp [again]

theorem reference_fault_eq (own : String) (seen names : List String) :
    referenceFault own seen names = firstBreach (referenceRule own) seen names := by
  induction names generalizing seen with
  | nil => rfl
  | cons name rest ih =>
      rw [referenceFault, firstBreach, referenceRule, ← ih]
      by_cases self : name = own
      · simp [self]
      · by_cases again : name ∈ seen
        · simp [self, again]
        · simp [self, again]

theorem registration_fault_eq (declared seen names : List String) :
    registrationFault declared seen names = firstBreach (registrationRule declared) seen names := by
  induction names generalizing seen with
  | nil => rfl
  | cons name rest ih =>
      rw [registrationFault, firstBreach, registrationRule, ← ih]
      by_cases known : name ∈ declared
      · by_cases again : name ∈ seen
        · simp [known, again]
        · simp [known, again]
      · simp [known]

inductive Table where
  | header
  | types
  | references
  | registrations
deriving DecidableEq, Repr

def Table.rank : Table → Nat
  | .header => 0
  | .types => 1
  | .references => 2
  | .registrations => 3

def Table.all : List Table := [.header, .types, .references, .registrations]

-- What is wrong with a module, and where. The header counts as a table with one entry.
inductive Breaks (m : Module) : Table → Nat → VerifyError → Prop
  | magic (wrong : m.magic ≠ magicNumber) : Breaks m .header 0 (.invalidHeader "Invalid magic number")
  | format (magic : m.magic = magicNumber) (wrong : m.format ≠ currentFormat) :
      Breaks m .header 0 (.invalidHeader s!"Unsupported version: {m.format.toNat}")
  | repeatedType {i : Nat} {t : TypeDecl} (here : m.types[i]? = some t)
      (again : ∃ earlier ∈ m.types.take i, earlier.fullName = t.fullName) :
      Breaks m .types i (.duplicateType t.fullName)
  | ownReference {i : Nat} {r : Identity} (here : m.references[i]? = some r)
      (own : r.fullName = m.identity.fullName) : Breaks m .references i (.selfReference r.fullName)
  | repeatedReference {i : Nat} {r : Identity} (here : m.references[i]? = some r)
      (other : r.fullName ≠ m.identity.fullName)
      (again : ∃ earlier ∈ m.references.take i, earlier.fullName = r.fullName) :
      Breaks m .references i (.duplicateReference r.fullName)
  | undeclared {i : Nat} {r : Registration} (here : m.registrations[i]? = some r)
      (missing : ∀ t ∈ m.types, t.fullName ≠ r.typeName) :
      Breaks m .registrations i (.unknownRegistration r.typeName)
  | repeatedRegistration {i : Nat} {r : Registration} (here : m.registrations[i]? = some r)
      (declared : ∃ t ∈ m.types, t.fullName = r.typeName)
      (again : ∃ earlier ∈ m.registrations.take i, earlier.typeName = r.typeName) :
      Breaks m .registrations i (.duplicateRegistration r.typeName)

def breach (m : Module) (table : Table) (i : Nat) : Option VerifyError :=
  match table with
  | .header => if i = 0 then m.headerFault.map .invalidHeader else none
  | .types => breachAt typeRule [] (m.types.map TypeDecl.fullName) i
  | .references => breachAt (referenceRule m.identity.fullName) [] m.dependencies i
  | .registrations =>
    breachAt (registrationRule (m.types.map TypeDecl.fullName)) [] (m.registrations.map Registration.typeName) i

theorem breaks_header_iff (m : Module) (error : VerifyError) :
    m.Breaks .header 0 error ↔ m.headerFault.map .invalidHeader = some error := by
  unfold headerFault
  constructor
  · intro broken
    cases broken with
    | magic wrong => rw [if_pos wrong, Option.map_some]
    | format magic wrong => rw [if_neg (not_not_intro magic), if_pos wrong, Option.map_some]
  · intro found
    by_cases magic : m.magic = magicNumber
    · by_cases format : m.format = currentFormat
      · simp [magic, format] at found
      · rw [if_neg (not_not_intro magic), if_pos format, Option.map_some, Option.some.injEq] at found
        exact found ▸ .format magic format
    · rw [if_pos magic, Option.map_some, Option.some.injEq] at found
      exact found ▸ .magic magic

theorem breaks_types_iff (m : Module) (i : Nat) (error : VerifyError) :
    m.Breaks .types i error ↔ breachAt typeRule [] (m.types.map TypeDecl.fullName) i = some error := by
  rw [breach_at_entry_iff]
  constructor
  · intro broken
    cases broken with
    | repeatedType here again => exact ⟨_, here, if_pos (mem_seen_iff.mpr again)⟩
  · intro found
    obtain ⟨t, here, found⟩ := found
    rw [typeRule, Option.ite_none_right_eq_some] at found
    obtain ⟨again, same⟩ := found
    exact Option.some.inj same ▸ .repeatedType here (mem_seen_iff.mp again)

theorem breaks_references_iff (m : Module) (i : Nat) (error : VerifyError) :
    m.Breaks .references i error ↔
      breachAt (referenceRule m.identity.fullName) [] m.dependencies i = some error := by
  rw [dependencies, breach_at_entry_iff]
  constructor
  · intro broken
    cases broken with
    | ownReference here own => exact ⟨_, here, if_pos own⟩
    | repeatedReference here other again =>
        refine ⟨_, here, ?_⟩
        rw [referenceRule, if_neg other, if_pos (mem_seen_iff.mpr again)]
  · intro found
    obtain ⟨r, here, found⟩ := found
    rw [referenceRule] at found
    split at found
    · rename_i own
      exact Option.some.inj found ▸ .ownReference here own
    · rename_i other
      rw [Option.ite_none_right_eq_some] at found
      obtain ⟨again, same⟩ := found
      exact Option.some.inj same ▸ .repeatedReference here other (mem_seen_iff.mp again)

theorem breaks_registrations_iff (m : Module) (i : Nat) (error : VerifyError) :
    m.Breaks .registrations i error ↔
      breachAt (registrationRule (m.types.map TypeDecl.fullName)) [] (m.registrations.map Registration.typeName) i =
        some error := by
  rw [breach_at_entry_iff]
  constructor
  · intro broken
    cases broken with
    | undeclared here missing =>
        refine ⟨_, here, if_pos fun member => ?_⟩
        obtain ⟨t, inside, same⟩ := List.mem_map.mp member
        exact missing t inside same
    | repeatedRegistration here declared again =>
        refine ⟨_, here, ?_⟩
        rw [registrationRule, if_neg (not_not_intro (List.mem_map.mpr declared)), if_pos (mem_seen_iff.mpr again)]
  · intro found
    obtain ⟨r, here, found⟩ := found
    rw [registrationRule] at found
    split at found
    · rename_i missing
      exact Option.some.inj found ▸ .undeclared here fun t inside same => missing (List.mem_map.mpr ⟨t, inside, same⟩)
    · rename_i declared
      rw [Option.ite_none_right_eq_some] at found
      obtain ⟨again, same⟩ := found
      exact Option.some.inj same ▸
        .repeatedRegistration here (List.mem_map.mp (Decidable.not_not.mp declared)) (mem_seen_iff.mp again)

theorem breaks_iff (m : Module) (table : Table) (i : Nat) (error : VerifyError) :
    m.Breaks table i error ↔ m.breach table i = some error := by
  cases table with
  | header =>
      cases i with
      | zero => exact m.breaks_header_iff error
      | succ i =>
          constructor
          · intro broken
            cases broken
          · intro found
            cases found
  | types => exact m.breaks_types_iff i error
  | references => exact m.breaks_references_iff i error
  | registrations => exact m.breaks_registrations_iff i error

def faultIn (m : Module) : Table → Option VerifyError
  | .header => m.headerFault.map .invalidHeader
  | .types => firstBreach typeRule [] (m.types.map TypeDecl.fullName)
  | .references => firstBreach (referenceRule m.identity.fullName) [] m.dependencies
  | .registrations =>
    firstBreach (registrationRule (m.types.map TypeDecl.fullName)) [] (m.registrations.map Registration.typeName)

theorem fault_in_eq_some_iff (m : Module) (table : Table) (error : VerifyError) :
    m.faultIn table = some error ↔ FirstOf (m.breach table) error := by
  cases table with
  | header =>
      rw [first_of_iff_head]
      simp [FirstOf, faultIn, breach]
  | types => exact first_breach_eq_some_iff _ _ _ _
  | references => exact first_breach_eq_some_iff _ _ _ _
  | registrations => exact first_breach_eq_some_iff _ _ _ _

theorem fault_eq (m : Module) : m.fault = Table.all.findSome? m.faultIn := by
  simp only [fault, first_repeated_eq, reference_fault_eq, registration_fault_eq, Option.orElse_eq_orElse,
    Option.orElse_eq_or, Table.all, find_some_cons, List.findSome?_nil, Option.or_none, faultIn]

/-- At one place there is at most one fault, so what is reported is determined. -/
theorem verify_reports_first (m : Module) :
    (m.verify = .ok () ↔ m.Sound) ∧ ∀ error, m.verify = .error error ↔ AtFirstPlace Table.rank m.Breaks error := by
  refine ⟨m.verify_eq_ok_iff, fun error => ?_⟩
  have reported : m.verify = .error error ↔ m.fault = some error := by
    unfold verify
    cases m.fault with
    | none => simp
    | some found => simp
  have complete : ∀ table, table ∈ Table.all := by
    intro table
    cases table <;> decide
  rw [reported, fault_eq]
  exact find_some_eq_some_iff m.breaks_iff m.fault_in_eq_some_iff complete (by decide) error

end Loom.Module
