import Loom.Proofs.Acceptance
import Loom.Proofs.Registration

set_option autoImplicit false

/-! A second pass over the file that the first one made finds nothing to do. -/
namespace Loom

namespace Module

variable {names : ReflectionNames} (apart : names.generatedAttribute ≠ names.classAttribute) (m : Module)

theorem is_registered_of_exposed {category : Category} {t : TypeDecl} (exposed : t ∈ m.exposed names category) :
    (m.rewritten names).isRegistered t.fullName = true := by
  obtain ⟨r, inside, named, _⟩ := registered_as exposed
  exact List.any_eq_true.mpr ⟨r, inside, decide_eq_true named⟩

include apart

theorem exposed_rewritten (category : Category) :
    (m.rewritten names).exposed names category = (m.exposed names category).map names.mark := by
  rw [exposed, types_rewritten, List.filter_map]
  simp only [Function.comp_def, names.classify_mark apart]
  rfl

theorem new_registrations_rewritten : (m.rewritten names).newRegistrations names = [] := by
  refine List.flatMap_eq_nil_iff.mpr fun category _ => ?_
  rw [List.map_eq_nil_iff, List.filter_eq_nil_iff, exposed_rewritten apart]
  intro t member
  obtain ⟨original, exposed, rfl⟩ := List.mem_map.mp member
  rw [names.full_name_mark, is_registered_of_exposed m exposed]
  exact Bool.false_ne_true

theorem rewritten_rewritten : (m.rewritten names).rewritten names = m.rewritten names := by
  have types : (m.rewritten names).types.map names.mark = (m.rewritten names).types := by
    rw [types_rewritten, List.map_map]
    exact List.map_congr_left fun t _ => names.mark_mark t
  have flags : (m.rewritten names).flags ||| wovenFlag = (m.rewritten names).flags := by
    change m.flags ||| wovenFlag ||| wovenFlag = m.flags ||| wovenFlag
    rw [UInt32.or_assoc, UInt32.or_self]
  rw [rewritten, new_registrations_rewritten apart, List.append_nil, flags]
  simp only [← ReflectionNames.mark_eq, types]

theorem record_rewritten (references : List String) (symbols : Option SymbolTable) :
    (m.rewritten names).record names references symbols = m.record names references symbols := by
  simp only [record, exposed_rewritten apart, List.map_map, Function.comp_def, names.describe_mark]
  rfl

end Module

namespace Batch

theorem reweaving_changes_nothing (names : ReflectionNames)
    (apart : names.generatedAttribute ≠ names.classAttribute) (search : SearchPath) (loaded : LoadedModule)
    (woven : (weaveModule registration names search loaded ()).result = .ok ())
    (verified : ((weaveModule registration names search loaded ()).draft.module.setFlag Module.wovenFlag).verify =
      .ok ())
    (lengths : ((weaveModule registration names search loaded ()).draft.module.setFlag
      Module.wovenFlag).LengthsFit) :
    let first := (weaveModule registration names search loaded ()).draft
    let file := (first.module.setFlag Module.wovenFlag).encode
    ∃ again, Module.decode file = .ok again ∧
      let second := weaveModule registration names search { loaded with module := again } ()
      second.result = .ok () ∧
      (second.draft.module.setFlag Module.wovenFlag).verify = .ok () ∧
      (second.draft.module.setFlag Module.wovenFlag).encode = file ∧
      second.draft.metadata = first.metadata ∧
      ∀ layout, second.draft.metadata.toText layout = first.metadata.toText layout := by
  intro first file
  obtain ⟨module, metadata⟩ := weave_module_done woven (distinct_of_verified verified)
  have sound := (Module.verify_eq_ok_iff _).mp verified
  have read : Module.decode file = .ok (loaded.module.rewritten names) := by
    rw [← module]
    exact Module.decode_encode_with Checksum.crc32 (lengths.fits sound.magic sound.format)
  refine ⟨loaded.module.rewritten names, read, ?_⟩
  intro second
  -- A mark leaves an enumeration its members, so the second pass is not refused either.
  have done : second.result = .ok () := by
    refine (weave_module_ok_iff _ _ _).mpr fun t member => ?_
    rw [Module.exposed_rewritten apart] at member
    obtain ⟨original, exposed, rfl⟩ := List.mem_map.mp member
    rw [names.fields_mark]
    exact (weave_module_ok_iff _ _ _).mp woven original exposed
  rw [module] at sound
  obtain ⟨moduleAgain, metadataAgain⟩ := weave_module_done done sound.types
  have sameModule : second.draft.module.setFlag Module.wovenFlag = first.module.setFlag Module.wovenFlag := by
    rw [module, moduleAgain, Module.rewritten_rewritten apart]
  have sameMetadata : second.draft.metadata = first.metadata := by
    rw [metadata, metadataAgain, Module.record_rewritten apart]
  refine ⟨done, ?_, ?_, sameMetadata, fun layout => ?_⟩
  · rw [sameModule]
    exact verified
  · rw [sameModule]
  · rw [sameMetadata]

theorem reweaving_player_and_kind :
    let loaded : LoadedModule := ⟨⟨Module.magicNumber, 1, 0, ⟨"Game", "1"⟩, [],
      [⟨"Game", "Player", .classType, none, ["Weft.HostClass"], []⟩,
        ⟨"Game", "Kind", .enumType, none, ["Weft.HostEnum"], [⟨"First", "Game.Kind"⟩]⟩],
      [⟨"Game.Player", "class"⟩], none⟩, "Game.wbc", none, []⟩
    let first := (weaveModule registration {} {} loaded ()).draft
    (first.module.setFlag Module.wovenFlag).registrations = [⟨"Game.Player", "class"⟩, ⟨"Game.Kind", "enum"⟩] ∧
      ∃ again, Module.decode (first.module.setFlag Module.wovenFlag).encode = .ok again ∧
        ((weaveModule registration {} {} { loaded with module := again } ()).draft.module.setFlag
          Module.wovenFlag).encode = (first.module.setFlag Module.wovenFlag).encode := by
  intro loaded first
  have woven : (weaveModule registration {} {} loaded ()).result = .ok () := by decide +kernel
  have verified : (first.module.setFlag Module.wovenFlag).verify = .ok () := by decide +kernel
  have lengths : (first.module.setFlag Module.wovenFlag).LengthsFit := by decide +kernel
  obtain ⟨again, read, _, _, same, _⟩ := reweaving_changes_nothing {} (by decide) {} loaded woven verified lengths
  exact ⟨by decide +kernel, again, read, same⟩

end Batch

end Loom
