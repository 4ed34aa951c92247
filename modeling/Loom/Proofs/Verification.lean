import Loom.Module.Verification

set_option autoImplicit false

namespace Loom.Module

theorem distinct_cons_iff (seen : List String) (name : String) (rest : List String) :
    ((name :: rest).Nodup ∧ ∀ other ∈ name :: rest, other ∉ seen) ↔
      name ∉ seen ∧ rest.Nodup ∧ ∀ other ∈ rest, other ∉ name :: seen := by
  simp only [List.nodup_cons, List.mem_cons, forall_eq_or_imp, not_or]
  constructor
  · intro facts
    obtain ⟨⟨unrepeated, distinct⟩, unseen, others⟩ := facts
    exact ⟨unseen, distinct, fun other member => ⟨fun same => unrepeated (same ▸ member), others other member⟩⟩
  · intro facts
    obtain ⟨unseen, distinct, others⟩ := facts
    exact ⟨⟨fun member => (others name member).1 rfl, distinct⟩, unseen, fun other member => (others other member).2⟩

theorem first_repeated_eq_none_iff (seen names : List String) :
    firstRepeated seen names = none ↔ names.Nodup ∧ ∀ name ∈ names, name ∉ seen := by
  induction names generalizing seen with
  | nil => simp [firstRepeated]
  | cons name rest ih =>
      rw [distinct_cons_iff, ← ih]
      by_cases again : name ∈ seen
      · simp [firstRepeated, again]
      · simp [firstRepeated, again]

theorem reference_fault_eq_none_iff (own : String) (seen names : List String) :
    referenceFault own seen names = none ↔ own ∉ names ∧ names.Nodup ∧ ∀ name ∈ names, name ∉ seen := by
  induction names generalizing seen with
  | nil => simp [referenceFault]
  | cons name rest ih =>
      rw [distinct_cons_iff, List.mem_cons, not_or, and_assoc, and_left_comm (a := own ∉ rest), ← ih]
      by_cases self : name = own
      · simp [referenceFault, self]
      · by_cases again : name ∈ seen
        · simp [referenceFault, self, again]
        · simp [referenceFault, self, again, Ne.symm self]

theorem registration_fault_eq_none_iff (declared seen names : List String) :
    registrationFault declared seen names = none ↔
      (∀ name ∈ names, name ∈ declared) ∧ names.Nodup ∧ ∀ name ∈ names, name ∉ seen := by
  induction names generalizing seen with
  | nil => simp [registrationFault]
  | cons name rest ih =>
      rw [distinct_cons_iff, List.forall_mem_cons, and_assoc, and_left_comm (a := ∀ name ∈ rest, name ∈ declared), ← ih]
      by_cases known : name ∈ declared
      · by_cases again : name ∈ seen
        · simp [registrationFault, known, again]
        · simp [registrationFault, known, again]
      · simp [registrationFault, known]

structure Sound (m : Module) : Prop where
  magic : m.magic = magicNumber
  format : m.format = currentFormat
  types : (m.types.map TypeDecl.fullName).Nodup
  notSelf : m.identity.fullName ∉ m.dependencies
  references : m.dependencies.Nodup
  declared : ∀ r ∈ m.registrations, ∃ t ∈ m.types, t.fullName = r.typeName
  registrations : (m.registrations.map Registration.typeName).Nodup

theorem header_fault_eq_none_iff (m : Module) :
    m.headerFault = none ↔ m.magic = magicNumber ∧ m.format = currentFormat := by
  by_cases magic : m.magic = magicNumber
  · by_cases format : m.format = currentFormat
    · simp [headerFault, magic, format]
    · simp [headerFault, magic, format]
  · simp [headerFault, magic]

theorem verify_eq_ok_iff (m : Module) : m.verify = .ok () ↔ m.Sound := by
  have faultless : m.verify = .ok () ↔ m.fault = none := by
    unfold verify
    cases m.fault with
    | none => simp
    | some error => simp
  rw [faultless]
  simp only [fault, Option.orElse_eq_orElse, Option.orElse_eq_or, Option.or_eq_none_iff, Option.map_eq_none_iff,
    header_fault_eq_none_iff, first_repeated_eq_none_iff, reference_fault_eq_none_iff, registration_fault_eq_none_iff]
  have declared : (∀ name ∈ m.registrations.map Registration.typeName, name ∈ m.types.map TypeDecl.fullName) ↔
      ∀ r ∈ m.registrations, ∃ t ∈ m.types, t.fullName = r.typeName := by
    rw [List.forall_mem_map]
    simp only [List.mem_map]
  rw [declared]
  constructor
  · intro facts
    obtain ⟨⟨magic, format⟩, ⟨types, _⟩, ⟨notSelf, references, _⟩, known, registrations, _⟩ := facts
    exact ⟨magic, format, types, notSelf, references, known, registrations⟩
  · intro sound
    exact ⟨⟨sound.magic, sound.format⟩, ⟨sound.types, fun _ _ => List.not_mem_nil⟩,
      ⟨sound.notSelf, sound.references, fun _ _ => List.not_mem_nil⟩, sound.declared, sound.registrations,
      fun _ _ => List.not_mem_nil⟩

theorem verify_set_flag (m : Module) (flag : UInt32) : (m.setFlag flag).verify = m.verify := rfl

end Loom.Module
