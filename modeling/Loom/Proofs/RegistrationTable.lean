import Loom.Proofs.Registration

set_option autoImplicit false

namespace Loom

theorem filter_name_eq_singleton {α : Type} {name : α → String} {entries : List α} {entry : α}
    (distinct : (entries.map name).Nodup) (member : entry ∈ entries) :
    entries.filter (fun other => name other = name entry) = [entry] := by
  induction entries with
  | nil => cases member
  | cons first rest ih =>
      obtain ⟨unrepeated, others⟩ := List.nodup_cons.mp distinct
      rcases List.mem_cons.mp member with rfl | later
      · have alone : rest.filter (fun other => name other = name entry) = [] := by
          rw [List.filter_eq_nil_iff]
          intro other inside
          simpa using fun same : name other = name entry => unrepeated (List.mem_map.mpr ⟨other, inside, same⟩)
        simp [alone]
      · have apart : name first ≠ name entry := fun same => unrepeated (List.mem_map.mpr ⟨entry, later, same.symm⟩)
        simp [apart, ih others later]

theorem ApiMetadata.mem_records {metadata : ApiMetadata} {category : Category} {record : TypeRecord}
    (member : record ∈ metadata.get category) : record ∈ metadata.records := by
  cases category <;> simp_all [get, records]

namespace Module

variable {names : ReflectionNames} {m : Module} {t : TypeDecl} {category : Category}

theorem mem_exposed (member : t ∈ m.types) (filed : names.classify t = some category) :
    t ∈ m.exposed names category :=
  List.mem_filter.mpr ⟨member, decide_eq_true filed⟩

theorem describe_mem_record (member : t ∈ m.exposed names category) (references : List String)
    (symbols : Option SymbolTable) :
    t.describe category symbols ∈ (m.record names references symbols).get category := by
  have described := List.mem_map_of_mem (f := (·.describe category symbols)) member
  cases category with
  | classType | structType | enumType | interfaceType => exact described
  | delegate => exact List.mem_append_left _ described
  | multicastDelegate => exact List.mem_append_right _ described

theorem records_names_nodup (distinct : (m.types.map TypeDecl.fullName).Nodup) (references : List String)
    (symbols : Option SymbolTable) :
    ((m.record names references symbols).records.map TypeRecord.fullName).Nodup := by
  have listed := (m.records_perm names references symbols).map TypeRecord.fullName
  rw [List.map_map] at listed
  exact listed.nodup_iff.mpr (classified_names_nodup distinct)

end Module

namespace Batch

/-- A classified type is alone with its name in both tables, and registered with the category of its record exactly if
no other was there before. -/
theorem woven_tables_agree {names : ReflectionNames} {search : SearchPath} {loaded : LoadedModule}
    (woven : (weaveModule registration names search loaded ()).result = .ok ())
    (verified : (weaveModule registration names search loaded ()).draft.module.verify = .ok ()) :
    let after := (weaveModule registration names search loaded ()).draft
    ∀ t ∈ loaded.module.types, ∀ category, names.classify t = some category →
      ∃ r record,
        after.module.registrations.filter (fun other => other.typeName = t.fullName) = [r] ∧
        after.metadata.records.filter (fun other => other.fullName = t.fullName) = [record] ∧
        record ∈ after.metadata.get category ∧ record.category = category ∧
        (∀ old ∈ loaded.module.registrations, old.typeName = t.fullName → r = old) ∧
        (r.category = record.category.name ↔
          ∀ old ∈ loaded.module.registrations, old.typeName = t.fullName → old.category = category.name) := by
  intro after t member category filed
  have sound := (Module.verify_eq_ok_iff _).mp verified
  have distinct : (loaded.module.types.map TypeDecl.fullName).Nodup := distinct_of_verified ((Module.verify_set_flag _ _).trans verified)
  obtain ⟨module, metadata⟩ := weave_module_done woven distinct
  have registrations : after.module.registrations =
      loaded.module.registrations ++ loaded.module.newRegistrations names := congrArg Module.registrations module
  obtain ⟨r, inside, named, source⟩ := Module.registered_as (Module.mem_exposed member filed)
  rw [← registrations] at inside
  have registered : after.module.registrations.filter (fun other => other.typeName = t.fullName) = [r] := by
    rw [← named]
    exact filter_name_eq_singleton sound.registrations inside
  -- An older registration is still in the table, where the name stands once.
  have unique : ∀ old ∈ loaded.module.registrations, old.typeName = t.fullName → r = old := by
    intro old before same
    have kept : old ∈ after.module.registrations.filter (fun other => other.typeName = t.fullName) := by
      refine List.mem_filter.mpr ⟨?_, decide_eq_true same⟩
      rw [registrations]
      exact List.mem_append_left _ before
    rw [registered] at kept
    exact (List.mem_singleton.mp kept).symm
  have entry : t.describe category loaded.symbols ∈ after.metadata.get category := by
    rw [metadata]
    exact Module.describe_mem_record (Module.mem_exposed member filed) _ _
  have described : after.metadata.records.filter (fun other => other.fullName = t.fullName) =
      [t.describe category loaded.symbols] := by
    rw [metadata] at entry ⊢
    exact filter_name_eq_singleton (Module.records_names_nodup distinct _ _) (ApiMetadata.mem_records entry)
  refine ⟨r, _, registered, described, entry, rfl, unique, ?_⟩
  constructor
  · intro same old before again
    exact unique old before again ▸ same
  · intro same
    rcases source with before | fresh
    · exact same r before named
    · exact fresh

-- The kind is new, and the player was registered as a class before.
theorem player_and_kind_in_tables :
    let player : TypeDecl := ⟨"Game", "Player", .classType, none, ["Weft.HostClass"], []⟩
    let kind : TypeDecl := ⟨"Game", "Kind", .enumType, none, ["Weft.HostEnum"], [⟨"First", "Game.Kind"⟩]⟩
    let game : Module :=
      ⟨Module.magicNumber, 1, 0, ⟨"Game", "1"⟩, [], [player, kind], [⟨"Game.Player", "class"⟩], none⟩
    let woven := weaveModule registration {} {} ⟨game, "Game.wbc", none, []⟩ ()
    woven.result = .ok () ∧ woven.draft.module.verify = .ok () ∧
      ∀ t ∈ [player, kind], ∀ category, ({} : ReflectionNames).classify t = some category →
        ∃ r record,
          woven.draft.module.registrations.filter (fun other => other.typeName = t.fullName) = [r] ∧
          woven.draft.metadata.records.filter (fun other => other.fullName = t.fullName) = [record] ∧
          record.category = category ∧ r.category = record.category.name := by
  intro player kind game woven
  have done : woven.result = .ok () := by decide +kernel
  have verified : woven.draft.module.verify = .ok () := by decide +kernel
  refine ⟨done, verified, fun t member category filed => ?_⟩
  obtain ⟨r, record, registered, described, _, same, _, agree⟩ := woven_tables_agree done verified t member category filed
  refine ⟨r, record, registered, described, same, agree.mpr fun old before named => ?_⟩
  cases List.mem_singleton.mp before
  rcases List.mem_pair.mp member with rfl | rfl
  · cases filed
    rfl
  · exact absurd named (by decide)

/-- A registration that was there before keeps its category, though the type is a class and described as one. -/
theorem earlier_category_stays :
    let player : TypeDecl := ⟨"Game", "Player", .classType, none, ["Weft.HostClass"], []⟩
    let game : Module := ⟨Module.magicNumber, 1, 0, ⟨"Game", "1"⟩, [], [player], [⟨"Game.Player", "enum"⟩], none⟩
    let woven := weaveModule registration {} {} ⟨game, "Game.wbc", none, []⟩ ()
    woven.result = .ok () ∧ woven.draft.module.verify = .ok () ∧
      ({} : ReflectionNames).classify player = some .classType ∧
      woven.draft.module.registrations = [⟨"Game.Player", "enum"⟩] ∧
      woven.draft.metadata.records.map (fun record => (record.fullName, record.category)) =
        [("Game.Player", .classType)] ∧
      ¬ ∃ r record,
        woven.draft.module.registrations.filter (fun other => other.typeName = player.fullName) = [r] ∧
        woven.draft.metadata.records.filter (fun other => other.fullName = player.fullName) = [record] ∧
        r.category = record.category.name ∧ r.category = Category.classType.name := by
  intro player game woven
  have registrations : woven.draft.module.registrations = [⟨"Game.Player", "enum"⟩] := by decide +kernel
  refine ⟨by decide +kernel, by decide +kernel, by decide +kernel, registrations, by decide +kernel, fun agreed => ?_⟩
  obtain ⟨r, _, registered, _, _, same⟩ := agreed
  have found : r ∈ woven.draft.module.registrations := (List.mem_filter.mp (registered ▸ List.mem_cons_self)).1
  rw [registrations] at found
  cases List.mem_singleton.mp found
  exact absurd same (by decide)

end Batch

end Loom
