import Loom.Batch
import Loom.Proofs.Classification
import Loom.Proofs.Dispatch
import Loom.Proofs.Verification
import Mathlib.Data.List.Nodup
import Mathlib.Data.List.Perm.Basic

set_option autoImplicit false

namespace Loom

@[simp] theorem ReflectionNames.describe_mark (names : ReflectionNames) (t : TypeDecl) (category : Category)
    (symbols : Option SymbolTable) : (names.mark t).describe category symbols = t.describe category symbols := by
  rw [TypeDecl.describe, names.full_name_mark, names.base_mark, names.fields_mark, names.mark_eq]
  rfl

namespace ApiMetadata

def extend (m : ApiMetadata) (category : Category) (records : List TypeRecord) : ApiMetadata :=
  match category with
  | .classType => { m with classes := m.classes ++ records }
  | .structType => { m with structs := m.structs ++ records }
  | .enumType => { m with enums := m.enums ++ records }
  | .interfaceType => { m with interfaces := m.interfaces ++ records }
  | .multicastDelegate | .delegate => { m with delegates := m.delegates ++ records }

theorem foldl_push_describe (m : ApiMetadata) (category : Category) (symbols : Option SymbolTable)
    (types : List TypeDecl) :
    (types.map (·.describe category symbols)).foldl push m =
      m.extend category (types.map (·.describe category symbols)) := by
  rw [foldl_push]
  cases category <;> simp [extend, TypeDecl.describe]

end ApiMetadata

theorem erase_dups_of_distinct {entries : List (Category × TypeDecl)}
    (distinct : (entries.map (·.2.fullName)).Nodup) :
    entries.eraseDupsBy (fun later earlier => later.2.fullName == earlier.2.fullName) = entries := by
  induction entries with
  | nil => rfl
  | cons entry rest ih =>
      obtain ⟨unrepeated, others⟩ := List.nodup_cons.mp distinct
      have kept : (rest.filter fun later => (later.2.fullName == entry.2.fullName) = false) = rest := by
        rw [List.filter_eq_self]
        intro later member
        have apart : later.2.fullName ≠ entry.2.fullName :=
          fun same => unrepeated (List.mem_map.mpr ⟨later, member, same⟩)
        simpa using apart
      rw [List.eraseDupsBy_cons, kept, ih others]

namespace Draft

variable (d : Draft) (symbols : Option SymbolTable)

theorem module_register_distinct (entries : List (Category × TypeDecl))
    (distinct : (entries.map (·.2.fullName)).Nodup) :
    (d.registerAll symbols entries).module =
      { d.module with
        registrations := d.module.registrations ++
          (entries.filter fun entry => !d.module.isRegistered entry.2.fullName).map
            fun entry => ⟨entry.2.fullName, entry.1.name⟩ } := by
  rw [module_register_all, Module.newcomers_eq, erase_dups_of_distinct]
  exact distinct.sublist (List.filter_sublist.map _)

theorem register_type_mark (names : ReflectionNames) (category : Category) (t : TypeDecl) :
    d.registerType category symbols (names.mark t) = d.registerType category symbols t := by
  rw [registerType, names.describe_mark, names.full_name_mark]
  rfl

theorem register_all_mark (names : ReflectionNames) (entries : List (Category × TypeDecl)) :
    d.registerAll symbols (entries.map fun entry => (entry.1, names.mark entry.2)) = d.registerAll symbols entries := by
  simp only [registerAll, List.foldl_map, register_type_mark]

end Draft

namespace Module

variable (names : ReflectionNames)

def exposures (m : Module) (categories : List Category) : List (Category × TypeDecl) :=
  categories.flatMap fun category => (m.exposed names category).map (category, ·)

section Dispatched

variable {names} {m : Module} {d : Draft} (marked : d.module.types = m.types.map names.mark)
include marked

theorem indices_lead (category : Category) :
    ((m.classify names).2.get category).map (d.module.types[·]?) =
      ((m.exposed names category).map names.mark).map some := by
  have there := m.classify_indices names category
  rw [show (m.classify names).1.types = d.module.types from marked.symm] at there
  rw [there, List.map_map]
  rfl

theorem find_refused :
    ((m.classify names).2.enums.find? d.refusesEnum).map (d.module.types[·]?) =
      ((m.exposed names .enumType).find? (·.fields.isEmpty)).map fun t => some (names.mark t) := by
  have lead := congrArg (List.find? fun found => found.all (·.fields.isEmpty)) (indices_lead marked .enumType)
  rw [List.find?_map, List.find?_map, List.find?_map, Option.map_map] at lead
  simp only [Function.comp_def, Option.all_some, ReflectionNames.fields_mark] at lead
  exact lead

theorem entries_lead :
    (m.classify names).2.entries.map (fun entry => d.module.types[entry.2]?.map (entry.1, ·)) =
      ((m.exposures names weavingOrder).map fun entry => (entry.1, names.mark entry.2)).map some := by
  simp only [Categorized.entries, exposures, List.map_flatMap, List.map_map]
  refine List.flatMap_congr fun category _ => ?_
  have lead := congrArg (List.map (Option.map (category, ·))) (indices_lead marked category)
  rw [List.map_map, List.map_map, List.map_map] at lead
  exact lead

theorem dispatch_registration (around : Surroundings) :
    registration.dispatch around (m.classify names).2 () d =
      match (m.exposed names .enumType).find? (·.fields.isEmpty) with
      | some t => ⟨(), d, .error (.unsupported t.fullName "enumeration declares no members")⟩
      | none => ⟨(), d.registerAll around.symbols (m.exposures names weavingOrder), .ok ()⟩ := by
  have refused := find_refused marked
  rw [dispatch_eq_pass]
  cases found : (m.exposed names .enumType).find? (·.fields.isEmpty) with
  | some t =>
      rw [found] at refused
      obtain ⟨index, first, there⟩ := Option.map_eq_some_iff.mp refused
      rw [first]
      simp [Draft.enumFault, there]
  | none =>
      rw [found] at refused
      rw [Option.map_eq_none_iff.mp refused, Draft.pass_of_leads d (entries_lead marked), Draft.register_all_mark]
      rfl

end Dispatched

theorem map_filter_eq_flatMap {α β : Type} (f : α → β) (p : α → Bool) (l : List α) :
    (l.filter p).map f = l.flatMap fun a => if p a then [f a] else [] := by
  induction l with
  | nil => rfl
  | cons a rest ih =>
      rw [List.flatMap_cons, ← ih]
      by_cases kept : p a = true
      · simp [kept]
      · simp [kept]

theorem exposures_perm {categories : List Category}
    (once : ∀ category, categories.filter (fun c => category = c) = [category]) (m : Module) :
    (m.exposures names categories).Perm (m.classified names) := by
  unfold exposures exposed classified
  induction m.types with
  | nil => simp
  | cons t rest ih =>
      have first : (categories.flatMap fun c => if names.classify t = some c then [(c, t)] else []) =
          ((names.classify t).map (·, t)).toList := by
        cases result : names.classify t with
        | none => simp
        | some category =>
            have found := map_filter_eq_flatMap (·, t) (fun c => category = c) categories
            rw [once category] at found
            simpa using found.symm
      have both : (categories.flatMap fun c => ((t :: rest).filter fun t => names.classify t = some c).map (c, ·)) =
          categories.flatMap fun c => (if names.classify t = some c then [(c, t)] else []) ++
            (rest.filter fun t => names.classify t = some c).map (c, ·) := by
        refine List.flatMap_congr fun c _ => ?_
        by_cases here : names.classify t = some c
        · simp [here]
        · simp [here]
      rw [both, List.filterMap_eq_flatMap_toList, List.flatMap_cons, ← List.filterMap_eq_flatMap_toList, ← first]
      exact (List.flatMap_append_perm _ _ _).symm.trans (ih.append_left _)

theorem weaving_order_once (category : Category) : weavingOrder.filter (fun c => category = c) = [category] := by
  cases category <;> rfl

variable {names} in
theorem classified_names_nodup {m : Module} (distinct : (m.types.map TypeDecl.fullName).Nodup) :
    ((m.classified names).map (·.2.fullName)).Nodup := by
  have types := congrArg (List.map TypeDecl.fullName) (m.classified_types names)
  rw [List.map_map] at types
  exact types ▸ distinct.sublist (List.filter_sublist.map _)

variable {names} in
theorem exposures_distinct {m : Module} (distinct : (m.types.map TypeDecl.fullName).Nodup) :
    ((m.exposures names weavingOrder).map (·.2.fullName)).Nodup :=
  ((m.exposures_perm names weaving_order_once).map (·.2.fullName)).nodup_iff.mpr (classified_names_nodup distinct)

def newRegistrations (m : Module) : List Registration :=
  weavingOrder.flatMap fun category =>
    ((m.exposed names category).filter fun t => !m.isRegistered t.fullName).map
      fun t => ⟨t.fullName, category.name⟩

def rewritten (m : Module) : Module :=
  { m with
    flags := m.flags ||| wovenFlag
    types := m.types.map fun t =>
      { t with
        attributes :=
          if (names.classify t).isSome ∧ names.generatedAttribute ∉ t.attributes
          then t.attributes ++ [names.generatedAttribute] else t.attributes }
    registrations := m.registrations ++ m.newRegistrations names }

def record (m : Module) (references : List String) (symbols : Option SymbolTable) : ApiMetadata where
  assemblyName := m.name
  references := references
  classes := (m.exposed names .classType).map (·.describe .classType symbols)
  structs := (m.exposed names .structType).map (·.describe .structType symbols)
  enums := (m.exposed names .enumType).map (·.describe .enumType symbols)
  interfaces := (m.exposed names .interfaceType).map (·.describe .interfaceType symbols)
  delegates := (m.exposed names .delegate).map (·.describe .delegate symbols) ++
    (m.exposed names .multicastDelegate).map (·.describe .multicastDelegate symbols)

theorem new_registrations_eq (m : Module) :
    ((m.exposures names weavingOrder).filter fun entry => !m.isRegistered entry.2.fullName).map
      (fun entry => ⟨entry.2.fullName, entry.1.name⟩) = m.newRegistrations names := by
  simp only [exposures, newRegistrations, List.filter_flatMap, List.map_flatMap, List.filter_map, List.map_map,
    Function.comp_def]

theorem new_registrations_perm (m : Module) :
    (m.newRegistrations names).Perm
      (((m.classified names).filter fun entry => !m.isRegistered entry.2.fullName).map
        fun entry => ⟨entry.2.fullName, entry.1.name⟩) := by
  rw [← new_registrations_eq]
  exact ((m.exposures_perm names weaving_order_once).filter _).map _

theorem record_eq (m : Module) (references : List String) (symbols : Option SymbolTable) :
    ((m.exposures names weavingOrder).map fun entry => entry.2.describe entry.1 symbols).foldl ApiMetadata.push
      { assemblyName := m.name, references := references } = m.record names references symbols := by
  have described : ∀ category, ((m.exposed names category).map (category, ·)).map
      (fun entry => entry.2.describe entry.1 symbols) =
        (m.exposed names category).map (·.describe category symbols) := by
    intro category
    rw [List.map_map]
    rfl
  simp only [exposures, weavingOrder, List.flatMap_cons, List.flatMap_nil, List.append_nil, List.map_append,
    List.foldl_append, described, ApiMetadata.foldl_push_describe]
  rfl

theorem records_perm (m : Module) (references : List String) (symbols : Option SymbolTable) :
    (m.record names references symbols).records.Perm
      ((m.classified names).map fun entry => entry.2.describe entry.1 symbols) := by
  have once : ∀ category : Category, [Category.classType, .structType, .enumType, .interfaceType, .delegate,
      .multicastDelegate].filter (fun c => category = c) = [category] := by
    intro category
    cases category <;> rfl
  have listed := (m.exposures_perm names once).map fun entry => entry.2.describe entry.1 symbols
  simpa [exposures, record, ApiMetadata.records, Function.comp_def] using listed

theorem types_rewritten (m : Module) : (m.rewritten names).types = m.types.map names.mark := by
  simp only [rewritten, ← ReflectionNames.mark_eq]

variable {names} in
theorem registered_as {m : Module} {category : Category} {t : TypeDecl} (exposed : t ∈ m.exposed names category) :
    ∃ r ∈ m.registrations ++ m.newRegistrations names, r.typeName = t.fullName ∧
      (r ∈ m.registrations ∨ r.category = category.name) := by
  by_cases known : m.isRegistered t.fullName = true
  · obtain ⟨old, inside, same⟩ := List.any_eq_true.mp known
    exact ⟨old, List.mem_append_left _ inside, of_decide_eq_true same, .inl inside⟩
  · have new : (⟨t.fullName, category.name⟩ : Registration) ∈ m.newRegistrations names := by
      refine List.mem_flatMap.mpr ⟨category, by cases category <;> decide, List.mem_map.mpr ⟨t, ?_, rfl⟩⟩
      exact List.mem_filter.mpr ⟨exposed, by simpa using known⟩
    exact ⟨_, List.mem_append_right _ new, rfl, .inr rfl⟩

end Module

namespace Batch

theorem weave_module_registration (names : ReflectionNames) (search : SearchPath) (loaded : LoadedModule) :
    weaveModule registration names search loaded () =
      let d : Draft := ⟨(loaded.module.classify names).1,
        { assemblyName := loaded.module.name, references := search.references }⟩
      match (loaded.module.exposed names .enumType).find? (·.fields.isEmpty) with
      | some t => ⟨(), d, .error (.unsupported t.fullName "enumeration declares no members")⟩
      | none => ⟨(), d.registerAll loaded.symbols (loaded.module.exposures names Module.weavingOrder), .ok ()⟩ :=
  Module.dispatch_registration (d := ⟨(loaded.module.classify names).1, _⟩) rfl ⟨search, loaded.symbols⟩

-- Registration fails at an enumeration without members, and at nothing else.
theorem weave_module_ok_iff (names : ReflectionNames) (search : SearchPath) (loaded : LoadedModule) :
    (weaveModule registration names search loaded ()).result = .ok () ↔
      ∀ t ∈ loaded.module.exposed names .enumType, t.fields ≠ [] := by
  rw [weave_module_registration]
  cases found : (loaded.module.exposed names .enumType).find? (·.fields.isEmpty) with
  | some t =>
      have bare : t.fields = [] := by simpa using List.find?_some found
      have member := List.mem_of_find?_eq_some found
      simpa using ⟨t, member, bare⟩
  | none =>
      have all := List.find?_eq_none.mp found
      simpa using all

theorem types_weave_module (names : ReflectionNames) (search : SearchPath) (loaded : LoadedModule) :
    (weaveModule registration names search loaded ()).draft.module.types = loaded.module.types.map names.mark := by
  rw [weave_module_registration]
  cases (loaded.module.exposed names .enumType).find? (·.fields.isEmpty) with
  | some t => rfl
  | none => exact Draft.types_register_all _ _ _

theorem weave_module_done {names : ReflectionNames} {search : SearchPath} {loaded : LoadedModule}
    (woven : (weaveModule registration names search loaded ()).result = .ok ())
    (distinct : (loaded.module.types.map TypeDecl.fullName).Nodup) :
    (weaveModule registration names search loaded ()).draft.module.setFlag Module.wovenFlag =
        loaded.module.rewritten names ∧
      (weaveModule registration names search loaded ()).draft.metadata =
        loaded.module.record names search.references loaded.symbols := by
  rw [weave_module_registration] at woven ⊢
  cases found : (loaded.module.exposed names .enumType).find? (·.fields.isEmpty) with
  | some t =>
      rw [found] at woven
      cases woven
  | none =>
      dsimp only
      rw [Draft.module_register_distinct _ _ _ (Module.exposures_distinct distinct), Draft.metadata_register_all]
      refine ⟨?_, loaded.module.record_eq names search.references loaded.symbols⟩
      rw [Module.rewritten, ← Module.new_registrations_eq]
      simp only [← ReflectionNames.mark_eq]
      rfl

theorem distinct_of_verified {names : ReflectionNames} {search : SearchPath} {loaded : LoadedModule}
    (verified : ((weaveModule registration names search loaded ()).draft.module.setFlag Module.wovenFlag).verify =
      .ok ()) : (loaded.module.types.map TypeDecl.fullName).Nodup := by
  have types := ((Module.verify_eq_ok_iff _).mp verified).types
  rw [Module.setFlag, types_weave_module, List.map_map] at types
  simpa only [Function.comp_def, ReflectionNames.full_name_mark] using types

end Batch

end Loom
