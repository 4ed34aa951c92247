import Loom.Proofs.Staging

set_option autoImplicit false

/-! Different stems keep all names apart, with one exception: a file may itself be named as another one's metadata. -/
namespace Loom

namespace Path

theorem extended_eq {name : List Char} (undotted : (splitName name).1 ≠ ['.']) (extension : List Char) :
    extended name extension = (splitName name).1 ++ '.' :: extension := by
  rcases split_name_cases name with whole | ⟨stem, old, nonempty, bare, dotted⟩
  · simp only [extended, whole]
  · have split : splitName name = (stem, some old) := by rw [dotted, split_name_dotted nonempty bare]
    rw [split] at undotted
    simp only [extended, split, if_neg undotted]

-- A stem that is a dot comes with an extension, as in three dots and letters: a dot is no name.
theorem extended_dotted {name : List Char} (proper : IsName name) (dotted : (splitName name).1 = ['.'])
    (extension : List Char) : extended name extension = ['.', '.'] := by
  rcases split_name_cases name with whole | ⟨stem, old, nonempty, bare, spelt⟩
  · rw [whole] at dotted
    exact absurd dotted proper.notDot
  · have split : splitName name = (stem, some old) := by rw [spelt, split_name_dotted nonempty bare]
    rw [split] at dotted
    simp only [extended, split, if_pos dotted]

theorem stem_ne_dot {name extension : List Char} (proper : IsName name) (own : IsName (extended name extension)) :
    (splitName name).1 ≠ ['.'] :=
  fun dot => own.notDotDot (extended_dotted proper dot extension)

theorem stem_ne_nil {name : List Char} (nonempty : name ≠ []) : (splitName name).1 ≠ [] := by
  rcases split_name_cases name with whole | ⟨stem, old, started, bare, dotted⟩
  · rwa [whole]
  · rwa [dotted, split_name_dotted started bare]

theorem extended_congr {f g : List Char} (properF : IsName f) (properG : IsName g)
    (stems : (splitName f).1 = (splitName g).1) (extension : List Char) :
    extended f extension = extended g extension := by
  by_cases dotted : (splitName f).1 = ['.']
  · rw [extended_dotted properF dotted, extended_dotted properG (stems ▸ dotted)]
  · rw [extended_eq dotted, extended_eq (stems ▸ dotted), stems]

theorem split_symbol_name {stem : List Char} (nonempty : stem ≠ []) :
    splitName (stem ++ '.' :: SymbolTable.fileExtension) = (stem, some SymbolTable.fileExtension) :=
  split_name_dotted nonempty (by decide)

theorem split_metadata_name {stem : List Char} (nonempty : stem ≠ []) :
    splitName (stem ++ '.' :: ApiMetadata.fileExtension) = (stem ++ ".metadata".toList, some "json".toList) := by
  have cut : stem ++ '.' :: ApiMetadata.fileExtension = stem ++ ".metadata".toList ++ '.' :: "json".toList := by
    rw [List.append_assoc]
    rfl
  rw [cut]
  exact split_name_dotted (List.append_ne_nil_of_left_ne_nil nonempty _) (by decide)

def IsSidecar (f name : List Char) : Prop :=
  name = extended f SymbolTable.fileExtension ∨ name = extended f ApiMetadata.fileExtension

def stemBehind (name : List Char) : List Char :=
  match splitName name with
  | (stem, some extension) =>
    if extension = "json".toList then stem.take (stem.length - ".metadata".toList.length) else stem
  | (stem, none) => stem

theorem stem_behind_sidecar {f name : List Char} (proper : IsName f) (beside : IsSidecar f name) :
    stemBehind name = (splitName f).1 := by
  have started := stem_ne_nil proper.nonempty
  by_cases dotted : (splitName f).1 = ['.']
  · have dots : name = ['.', '.'] := by
      rcases beside with symbols | metadata
      · exact symbols.trans (extended_dotted proper dotted _)
      · exact metadata.trans (extended_dotted proper dotted _)
    rw [dots, dotted]
    decide
  · rcases beside with symbols | metadata
    · rw [symbols, extended_eq dotted, stemBehind, split_symbol_name started]
      exact if_neg (by decide)
    · rw [metadata, extended_eq dotted, stemBehind, split_metadata_name started]
      refine (if_pos rfl).trans ?_
      rw [List.length_append, Nat.add_sub_cancel, List.take_left]

variable {f g name : List Char} (properF : IsName f) (properG : IsName g)

include properF properG

theorem file_as_sidecar (stems : (splitName f).1 ≠ (splitName g).1) (beside : IsSidecar g f) :
    f = extended g ApiMetadata.fileExtension := by
  rcases beside with symbols | metadata
  · by_cases dotted : (splitName g).1 = ['.']
    · exact absurd (symbols.trans (extended_dotted properG dotted _)) properF.notDotDot
    · rw [symbols, extended_eq dotted, split_symbol_name (stem_ne_nil properG.nonempty)] at stems
      exact absurd rfl stems
  · exact metadata

theorem shared_output_name (stems : (splitName f).1 ≠ (splitName g).1) (own : name = f ∨ IsSidecar f name)
    (other : name = g ∨ IsSidecar g name) :
    f = extended g ApiMetadata.fileExtension ∨ g = extended f ApiMetadata.fileExtension := by
  rcases own with rfl | beside
  · rcases other with rfl | beside'
    · exact absurd rfl stems
    · exact .inl (file_as_sidecar properF properG stems beside')
  · rcases other with rfl | beside'
    · exact .inr (file_as_sidecar properG properF stems.symm beside)
    · have behind := stem_behind_sidecar properF beside
      exact absurd (behind.symm.trans (stem_behind_sidecar properG beside')) stems

end Path

def outputPaths (module : Path) : List Path := [module, symbolPath module, metadataPath module]

namespace Path

theorem stem_join (d : Path) {name : List Char} (proper : IsName name) : (d.join name).stem? = some (splitName name).1 := by
  rw [stem?, file_name_join d proper, Option.map_some]

theorem extended_plain {name extension : List Char} (proper : IsName name) (nonempty : extension ≠ [])
    (plain : '/' ∉ extension) : '/' ∉ extended name extension := by
  rcases extended_cases proper nonempty plain with dots | own
  · rw [dots]
    decide
  · exact own.plain

theorem join_plain_injective (d : Path) {name other : List Char} (plain : '/' ∉ name) (plainOther : '/' ∉ other)
    (same : d.join name = d.join other) : name = other := by
  rw [join_plain d plain, join_plain d plainOther] at same
  exact List.append_cancel_left (congrArg Path.chars same)

open StagingArea in
theorem mem_output_paths_iff (d : Path) {f : List Char} (proper : IsName f) (path : Path) :
    path ∈ outputPaths (d.join f) ↔ ∃ name, '/' ∉ name ∧ (name = f ∨ IsSidecar f name) ∧ path = d.join name := by
  have symbols : '/' ∉ extended f SymbolTable.fileExtension := extended_plain proper (by decide) (by decide)
  have metadata : '/' ∉ extended f ApiMetadata.fileExtension := extended_plain proper (by decide) (by decide)
  rw [outputPaths, symbol_path_join d proper, metadata_path_join d proper]
  simp only [List.mem_cons, List.not_mem_nil, or_false]
  constructor
  · rintro (rfl | rfl | rfl)
    · exact ⟨f, proper.plain, .inl rfl, rfl⟩
    · exact ⟨_, symbols, .inr (.inl rfl), rfl⟩
    · exact ⟨_, metadata, .inr (.inr rfl), rfl⟩
  · rintro ⟨name, _, rfl | rfl | rfl, rfl⟩
    · exact .inl rfl
    · exact .inr (.inl rfl)
    · exact .inr (.inr rfl)

theorem metadata_no_module {f g : List Char} (properG : IsName g) (usual : '.' :: Module.fileExtension <:+ f) :
    f ≠ extended g ApiMetadata.fileExtension := by
  intro same
  obtain ⟨front, whole⟩ := usual
  have last : f.getLast? = some 'c' := by
    rw [← whole, List.getLast?_append]
    rfl
  by_cases dotted : (splitName g).1 = ['.']
  · rw [same, extended_dotted properG dotted] at last
    exact absurd last (by decide)
  · rw [same, extended_eq dotted, List.getLast?_append] at last
    exact absurd (show some 'n' = some 'c' from last) (by decide)

open StagingArea in
/-- The directory may be the empty path, and then these are names by themselves. -/
theorem output_paths_meet_iff (d : Path) {f g : List Char} (properF : IsName f) (properG : IsName g) :
    ((d.join f).stem? ≠ (d.join g).stem? →
      ((∃ path, path ∈ outputPaths (d.join f) ∧ path ∈ outputPaths (d.join g)) ↔
        d.join f = metadataPath (d.join g) ∨ d.join g = metadataPath (d.join f)) ∧
      ('.' :: Module.fileExtension <:+ f → '.' :: Module.fileExtension <:+ g →
        (outputPaths (d.join f)).Disjoint (outputPaths (d.join g)))) ∧
    ((d.join f).stem? = (d.join g).stem? →
      symbolPath (d.join f) = symbolPath (d.join g) ∧ metadataPath (d.join f) = metadataPath (d.join g)) := by
  rw [stem_join d properF, stem_join d properG]
  have shared : ∀ path, (splitName f).1 ≠ (splitName g).1 → path ∈ outputPaths (d.join f) →
      path ∈ outputPaths (d.join g) →
      f = extended g ApiMetadata.fileExtension ∨ g = extended f ApiMetadata.fileExtension := by
    intro path stems own other
    obtain ⟨name, plain, ofF, rfl⟩ := (mem_output_paths_iff d properF path).mp own
    obtain ⟨name', plain', ofG, same⟩ := (mem_output_paths_iff d properG _).mp other
    obtain rfl := join_plain_injective d plain plain' same
    exact shared_output_name properF properG stems ofF ofG
  refine ⟨fun stems => ?_, fun stems => ?_⟩
  · have apart : (splitName f).1 ≠ (splitName g).1 := fun same => stems (congrArg some same)
    refine ⟨⟨?_, ?_⟩, fun usualF usualG path own other => ?_⟩
    · rintro ⟨path, own, other⟩
      rw [metadata_path_join d properF, metadata_path_join d properG]
      exact (shared path apart own other).imp (congrArg d.join) (congrArg d.join)
    · rintro (named | named)
      · exact ⟨d.join f, List.mem_cons_self, by simp [outputPaths, named]⟩
      · exact ⟨d.join g, by simp [outputPaths, named], List.mem_cons_self⟩
    · rcases shared path apart own other with named | named
      · exact metadata_no_module properG usualF named
      · exact metadata_no_module properF usualG named
  · have same : (splitName f).1 = (splitName g).1 := Option.some.inj stems
    rw [symbol_path_join d properF, symbol_path_join d properG, metadata_path_join d properF, metadata_path_join d properG]
    exact ⟨congrArg d.join (extended_congr properF properG same _), congrArg d.join (extended_congr properF properG same _)⟩

-- The metadata of a module stands in the way of a module that is named like it, but not of one of another name.
theorem output_paths_of_game :
    let game := "Game.wbc".toList
    let namesake := "Game.metadata.json".toList
    let core := "Core.wbc".toList
    let old := "Game.old".toList
    (IsName game ∧ IsName namesake ∧ IsName core ∧ IsName old) ∧
    (∃ path, path ∈ outputPaths "Game.metadata.json" ∧ path ∈ outputPaths "Game.wbc") ∧
    (outputPaths "Game.wbc").Disjoint (outputPaths "Core.wbc") ∧
    symbolPath "Game.wbc" = symbolPath "Game.old" ∧ metadataPath "Game.wbc" = metadataPath "Game.old" := by
  intro game namesake core old
  have gameName : IsName game := by decide +kernel
  have namesakeName : IsName namesake := by decide +kernel
  have coreName : IsName core := by decide +kernel
  have oldName : IsName old := by decide +kernel
  refine ⟨⟨gameName, namesakeName, coreName, oldName⟩, ?_, ?_, ?_⟩
  · have meets := ((output_paths_meet_iff ⟨[]⟩ namesakeName gameName).1 (by decide +kernel)).1
    exact meets.mpr (.inl (by decide +kernel))
  · have apart := ((output_paths_meet_iff ⟨[]⟩ gameName coreName).1 (by decide +kernel)).2
    exact apart (by decide +kernel) (by decide +kernel)
  · exact (output_paths_meet_iff ⟨[]⟩ gameName oldName).2 (by decide +kernel)

end Path

end Loom
