import Loom.Proofs.Batch.Stopping
import Loom.Proofs.Dispatch

set_option autoImplicit false

/-! Marks change no name, and registration adds what is declared and not registered yet, so verification finds in a
woven module what it finds in the module as it was. -/
namespace Loom

namespace Module

def verdict (m : Module) : String × Option VerifyError := (m.name, m.fault)

theorem registration_fault_concat {declared seen names : List String} {name : String} (known : name ∈ declared)
    (unseen : name ∉ seen) (fresh : name ∉ names) :
    registrationFault declared seen (names ++ [name]) = registrationFault declared seen names := by
  induction names generalizing seen with
  | nil => simp [registrationFault, known, unseen]
  | cons other rest ih =>
      have apart : name ≠ other := List.ne_of_not_mem_cons fresh
      have later : name ∉ rest := List.not_mem_of_not_mem_cons fresh
      have still : name ∉ other :: seen := List.not_mem_cons_of_ne_of_not_mem apart unseen
      rw [List.cons_append, registrationFault, registrationFault, ih still later]

theorem verdict_register {m : Module} {t : TypeDecl} (declared : t ∈ m.types)
    (unregistered : ¬ m.isRegistered t.fullName = true) (category : String) :
    verdict { m with registrations := m.registrations ++ [⟨t.fullName, category⟩] } = m.verdict := by
  have fresh : t.fullName ∉ m.registrations.map Registration.typeName := by
    intro member
    obtain ⟨r, inside, same⟩ := List.mem_map.mp member
    exact unregistered (List.any_eq_true.mpr ⟨r, inside, decide_eq_true same⟩)
  have known : t.fullName ∈ m.types.map TypeDecl.fullName := List.mem_map_of_mem declared
  have last := registration_fault_concat known List.not_mem_nil fresh
  simp only [verdict, fault, List.map_append, List.map_cons, List.map_nil, last]
  rfl

theorem verdict_classify (m : Module) (names : ReflectionNames) : (m.classify names).1.verdict = m.verdict := by
  have same : (m.types.map names.mark).map TypeDecl.fullName = m.types.map TypeDecl.fullName := by
    rw [List.map_map]
    exact List.map_congr_left fun t _ => names.full_name_mark t
  simp only [verdict, fault, classify, same]
  rfl

theorem verify_of_verdict {m m' : Module} (same : m'.verdict = m.verdict) : m'.verify = m.verify := by
  have faults : m'.fault = m.fault := congrArg Prod.snd same
  rw [verify, verify, faults]

end Module

namespace Draft

theorem verdict_register_type {d : Draft} {t : TypeDecl} (declared : t ∈ d.module.types) (category : Category)
    (symbols : Option SymbolTable) : (d.registerType category symbols t).module.verdict = d.module.verdict := by
  by_cases known : d.module.isRegistered t.fullName = true
  · rw [registerType, if_pos known]
  · rw [registerType, if_neg known]
    exact Module.verdict_register declared known category.name

theorem verdict_register_all (d : Draft) (symbols : Option SymbolTable) (entries : List (Category × TypeDecl))
    (declared : ∀ entry ∈ entries, entry.2 ∈ d.module.types) :
    (d.registerAll symbols entries).module.verdict = d.module.verdict := by
  induction entries generalizing d with
  | nil => rfl
  | cons entry rest ih =>
      obtain ⟨first, others⟩ := List.forall_mem_cons.mp declared
      refine (ih (d.registerType entry.1 symbols entry.2) ?_).trans (verdict_register_type first entry.1 symbols)
      rwa [types_register_type]

end Draft

-- The indices may lead to a type twice, or to none. What was registered before that stays.
theorem verdict_dispatch (names : ReflectionNames) (m : Module) (metadata : ApiMetadata) (around : Surroundings)
    (types : Categorized) :
    (registration.dispatch around types () ⟨(m.classify names).1, metadata⟩).draft.module.verdict = m.verdict := by
  rw [dispatch_eq_pass]
  cases types.enums.find? (Draft.refusesEnum ⟨(m.classify names).1, metadata⟩) with
  | some index => exact m.verdict_classify names
  | none =>
      rw [Draft.pass_eq]
      exact (Draft.verdict_register_all _ _ _ fun entry => Draft.mem_types_of_met).trans (m.verdict_classify names)

namespace Batch

open Loom.Task StagingArea

variable {settings : Settings} {planned : Plan}

theorem FailsAt.verdict {stem name : String} {fault : VerifyError}
    (fails : planned.FailsAt registration settings stem (.verify name fault)) :
    ∃ loaded ∈ planned.toWeave settings, loaded.stem = stem ∧ loaded.module.name = name ∧
      loaded.module.verify = .error fault := by
  obtain ⟨loaded, member, same, _, fails⟩ := fails
  cases fails with
  | unstaged _ unstaged =>
      have kept : (weaveModule registration settings.reflection planned.search loaded ()).draft.module.verdict =
          loaded.module.verdict :=
        verdict_dispatch settings.reflection loaded.module _ _ _
      cases unstaged with
      | unsound found =>
          refine ⟨loaded, member, same.symm, (congrArg Prod.fst kept).symm, ?_⟩
          rw [Module.verify_set_flag] at found
          exact (Module.verify_of_verdict kept).symm.trans found

/-- When a batch stops at a module because of the verdict on it, that is the one on the module as it was loaded. -/
theorem weaving_keeps_verdict :
    (∀ (names : ReflectionNames) (m : Module) (metadata : ApiMetadata) (around : Surroundings) (types : Categorized),
      (registration.dispatch around types () ⟨(m.classify names).1, metadata⟩).draft.module.verify = m.verify) ∧
    ∀ (ε : Type) (settings : Settings) (request : Request) (fs : FileSystem) (stem name : String) (fault : VerifyError),
      ((run registration settings request () : Task ε _).run fs).result =
        .ok (.error (.batch stem (.verify name fault)), ()) →
      ∃ planned, ((plan request.references request.targets settings.readSymbols).run fs).result = .ok planned ∧
        ∃ loaded ∈ planned.toWeave settings, loaded.stem = stem ∧ loaded.module.name = name ∧
          loaded.module.verify = .error fault := by
  refine ⟨fun names m metadata around types => ?_, fun ε settings request fs stem name fault stopped => ?_⟩
  · exact Module.verify_of_verdict (verdict_dispatch names m metadata around types)
  · have stops : (run registration settings request () : Task ε _).Ensures fs _ _ :=
      run_stops registration settings request ()
    obtain ⟨planned, planning, fails⟩ := stops.done _ stopped stem _ rfl
    exact ⟨planned, planning, FailsAt.verdict fails⟩

-- Game registers a type that it does not declare. Registration adds its class behind that.
theorem undeclared_registration_refused_as_loaded :
    let game : Module := ⟨Module.magicNumber, 1, 0, ⟨"Game", "1"⟩, [],
      [⟨"", "Foe", .classType, none, ["H"], []⟩], [⟨"Bar", ""⟩], none⟩
    let fs := ((⟨[], []⟩ : FileSystem).write "Game.wbc" game.encode).2
    let settings : Settings := { reflection := { classAttribute := "H" } }
    let request : Request := ⟨[], ["Game.wbc"], "out"⟩
    let d : Draft := ⟨(game.classify settings.reflection).1, { assemblyName := "Game", references := [] }⟩
    let fault : VerifyError := .unknownRegistration "Bar"
    (registration.dispatch ⟨{}, none⟩ { classes := [0, 7] } () d).draft.module.verify = .error fault ∧
      ((run registration settings request () : Task Failure _).run fs).result =
        .ok (.error (.batch "Game" (.verify "Game" fault)), ()) ∧
      ∃ planned, ((plan [] ["Game.wbc"] true).run fs).result = .ok planned ∧
        ∃ loaded ∈ planned.toWeave settings, loaded.stem = "Game" ∧ loaded.module.name = "Game" ∧
          loaded.module.verify = .error fault := by
  intro game fs settings request d fault
  have stopped : ((run registration settings request () : Task Failure _).run fs).result =
      .ok (.error (.batch "Game" (.verify "Game" fault)), ()) := by decide +kernel
  have verdict : game.verify = .error fault := by decide +kernel
  have found := weaving_keeps_verdict.2 Failure settings request fs "Game" "Game" fault stopped
  exact ⟨(weaving_keeps_verdict.1 settings.reflection game _ _ _).trans verdict, stopped, found⟩

end Batch

end Loom
