import Loom.Settings

set_option autoImplicit false

namespace Loom

namespace ReflectionNames

variable (names : ReflectionNames)

theorem mark_eq (t : TypeDecl) :
    names.mark t =
      { t with
        attributes :=
          if (names.classify t).isSome ∧ names.generatedAttribute ∉ t.attributes
          then t.attributes ++ [names.generatedAttribute] else t.attributes } := by
  by_cases classified : (names.classify t).isSome = true
  · by_cases has : names.generatedAttribute ∈ t.attributes
    · simp [mark, TypeDecl.addAttributeOnce, TypeDecl.hasAttribute, classified, has]
    · simp [mark, TypeDecl.addAttributeOnce, TypeDecl.hasAttribute, classified, has]
  · simp [mark, classified]

@[simp] theorem kind_mark (t : TypeDecl) : (names.mark t).kind = t.kind := by rw [mark_eq]

@[simp] theorem base_mark (t : TypeDecl) : (names.mark t).base = t.base := by rw [mark_eq]

@[simp] theorem fields_mark (t : TypeDecl) : (names.mark t).fields = t.fields := by rw [mark_eq]

@[simp] theorem full_name_mark (t : TypeDecl) : (names.mark t).fullName = t.fullName := by
  rw [mark_eq]
  rfl

theorem mark_of_unclassified {t : TypeDecl} (unclassified : names.classify t = none) : names.mark t = t := by
  rw [mark, unclassified]
  rfl

theorem has_attribute_mark {t : TypeDecl} (classified : (names.classify t).isSome = true) (a : String) :
    (names.mark t).hasAttribute a = (t.hasAttribute a || decide (a = names.generatedAttribute)) := by
  rw [mark_eq]
  by_cases has : names.generatedAttribute ∈ t.attributes
  · by_cases same : a = names.generatedAttribute
    · simp [TypeDecl.hasAttribute, same, has]
    · simp [TypeDecl.hasAttribute, same, has]
  · simp [TypeDecl.hasAttribute, classified, has]

def IsDelegate (t : TypeDecl) : Prop :=
  names.classify t = some .multicastDelegate ∨ names.classify t = some .delegate

instance : DecidablePred names.IsDelegate :=
  fun t => inferInstanceAs (Decidable (names.classify t = some .multicastDelegate ∨ names.classify t = some .delegate))

theorem classify_base_delegate {base : TypeRef} {category : Category}
    (found : names.classifyBase base = some category) : category = .multicastDelegate ∨ category = .delegate := by
  unfold classifyBase at found
  split at found
  · exact .inl (Option.some.inj found).symm
  · split at found
    · exact .inr (Option.some.inj found).symm
    · cases found

-- Only a class may be classified without its attribute: a mark that is the class attribute makes a class of a
-- delegate.
theorem classify_mark_eq (t : TypeDecl) :
    names.classify (names.mark t) =
      if names.generatedAttribute = names.classAttribute ∧ names.IsDelegate t then some .classType
      else names.classify t := by
  cases result : names.classify t with
  | none => simp [mark_of_unclassified names result, IsDelegate, result]
  | some category =>
      have classified : (names.classify t).isSome = true := by rw [result, Option.isSome_some]
      have marked := has_attribute_mark names classified
      have delegate : names.IsDelegate t ↔ category = .multicastDelegate ∨ category = .delegate := by
        rw [IsDelegate, result, Option.some.injEq, Option.some.injEq]
      simp only [delegate]
      rw [classify] at result ⊢
      simp only [kind_mark, base_mark, marked]
      cases kind : t.kind with
      | classType =>
          simp only [kind] at result
          by_cases has : t.hasAttribute names.classAttribute = true
          · rw [if_pos has, Option.some.injEq] at result
            simp [has, ← result]
          · rw [if_neg has] at result
            obtain ⟨base, found, filed⟩ := Option.bind_eq_some_iff.mp result
            have isDelegate := names.classify_base_delegate filed
            by_cases same : names.generatedAttribute = names.classAttribute
            · simp [same, isDelegate]
            · simp [has, same, Ne.symm same, found, filed]
      | enumType | valueType | interfaceType =>
          simp only [kind] at result
          split at result
          · rename_i has
            simp [has, ← Option.some.inj result]
          · cases result

theorem classify_mark (apart : names.generatedAttribute ≠ names.classAttribute) (t : TypeDecl) :
    names.classify (names.mark t) = names.classify t := by
  rw [classify_mark_eq, if_neg fun both => apart both.1]

theorem mark_mark (t : TypeDecl) : names.mark (names.mark t) = names.mark t := by
  by_cases classified : (names.classify t).isSome = true
  · have has : names.generatedAttribute ∈ (names.mark t).attributes := by
      have marked := has_attribute_mark names classified names.generatedAttribute
      rw [decide_eq_true rfl, Bool.or_true] at marked
      exact List.contains_iff_mem.mp marked
    rw [mark_eq names (names.mark t), if_neg fun lacks => lacks.2 has]
  · have unclassified := Option.not_isSome_iff_eq_none.mp classified
    rw [mark_of_unclassified names unclassified, mark_of_unclassified names unclassified]

end ReflectionNames

namespace Categorized

theorem get_push (c : Categorized) (category other : Category) (index : Nat) :
    (c.push category index).get other = c.get other ++ if category = other then [index] else [] := by
  cases category <;> cases other <;> simp [push, get]

theorem get_file (names : ReflectionNames) (category : Category) (start : Nat) (c : Categorized)
    (types : List TypeDecl) :
    (file names start c types).get category = c.get category ++
      ((types.zipIdx start).filter fun entry => names.classify entry.1 = some category).map Prod.snd := by
  induction types generalizing start c with
  | nil => simp [file]
  | cons t rest ih =>
      rw [file, List.zipIdx_cons]
      cases result : names.classify t with
      | none => simp [ih, result]
      | some found =>
          dsimp only
          rw [ih, get_push]
          by_cases same : found = category
          · simp [result, same]
          · simp [result, same]

theorem get_filed (names : ReflectionNames) (category : Category) (types : List TypeDecl) :
    (file names 0 {} types).get category =
      (types.zipIdx.filter fun entry => names.classify entry.1 = some category).map Prod.snd := by
  have empty : (({} : Categorized).get category) = [] := by cases category <;> rfl
  rw [get_file, empty, List.nil_append]

theorem mem_file (names : ReflectionNames) (category : Category) (types : List TypeDecl) (i : Nat) :
    i ∈ (file names 0 {} types).get category ↔
      ∃ t, types[i]? = some t ∧ names.classify t = some category := by
  rw [get_filed, List.mem_map]
  constructor
  · intro there
    obtain ⟨entry, member, rfl⟩ := there
    obtain ⟨inside, filed⟩ := List.mem_filter.mp member
    exact ⟨entry.1, List.mem_zipIdx_iff_getElem?.mp inside, of_decide_eq_true filed⟩
  · intro there
    obtain ⟨t, found, filed⟩ := there
    refine ⟨(t, i), List.mem_filter.mpr ⟨List.mk_mem_zipIdx_iff_getElem?.mpr found, decide_eq_true filed⟩, rfl⟩

theorem mem_file_iff {names : ReflectionNames} {types : List TypeDecl} {i : Nat} {t : TypeDecl}
    (found : types[i]? = some t) (category : Category) :
    i ∈ (file names 0 {} types).get category ↔ names.classify t = some category := by
  rw [mem_file]
  simp [found]

theorem file_congr (names : ReflectionNames) {types others : List TypeDecl}
    (same : types.map names.classify = others.map names.classify) (start : Nat) (c : Categorized) :
    file names start c types = file names start c others := by
  induction types generalizing others start c with
  | nil =>
      cases others with
      | nil => rfl
      | cons u others => cases same
  | cons t rest ih =>
      cases others with
      | nil => cases same
      | cons u others =>
          obtain ⟨head, tail⟩ := List.cons.inj same
          rw [file, file, head]
          cases names.classify u with
          | none => exact ih tail _ _
          | some category => exact ih tail _ _

theorem file_map_eq_iff (names : ReflectionNames) (change : TypeDecl → TypeDecl) (types : List TypeDecl) :
    file names 0 {} (types.map change) = file names 0 {} types ↔
      ∀ t ∈ types, names.classify (change t) = names.classify t := by
  constructor
  · intro same t member
    obtain ⟨i, found⟩ := List.mem_iff_getElem?.mp member
    have changed : (types.map change)[i]? = some (change t) := by rw [List.getElem?_map, found, Option.map_some]
    ext category
    rw [← mem_file_iff changed, ← mem_file_iff found, same]
  · intro same
    apply file_congr
    rw [List.map_map]
    exact List.map_congr_left same

end Categorized

namespace Module

variable (names : ReflectionNames)

def exposed (m : Module) (category : Category) : List TypeDecl :=
  m.types.filter fun t => names.classify t = some category

def classified (m : Module) : List (Category × TypeDecl) :=
  m.types.filterMap fun t => (names.classify t).map (·, t)

theorem classified_types (m : Module) :
    (m.classified names).map Prod.snd = m.types.filter fun t => (names.classify t).isSome := by
  have kept : (fun t => ((names.classify t).map (·, t)).map Prod.snd) =
      Option.guard fun t => (names.classify t).isSome := by
    funext t
    cases result : names.classify t with
    | none => simp [Option.guard, result]
    | some category => simp [Option.guard, result]
  rw [classified, List.map_filterMap, kept, List.filterMap_eq_filter]

theorem classify_indices (m : Module) (category : Category) :
    (((m.classify names).2.get category).map ((m.classify names).1.types[·]?)) =
      (m.exposed names category).map fun t => some (names.mark t) := by
  have leads : ∀ entry ∈ m.types.zipIdx.filter fun entry => names.classify entry.1 = some category,
      (m.types.map names.mark)[entry.2]? = some (names.mark entry.1) := by
    intro entry member
    have found := List.mem_zipIdx_iff_getElem?.mp (List.mem_filter.mp member).1
    rw [List.getElem?_map, found, Option.map_some]
  have kept : (m.types.zipIdx.filter fun entry => names.classify entry.1 = some category).map Prod.fst =
      m.exposed names category := by
    rw [exposed, ← List.zipIdx_map_fst 0 m.types, List.filter_map, List.zipIdx_map_fst]
    rfl
  rw [classify, Categorized.get_filed, List.map_map, ← kept, List.map_map]
  exact List.map_congr_left leads

/-- Classifying again finds the same unless the mark is the class attribute and a delegate was marked with it: that is
a class then. -/
theorem reclassification_stable_iff (names : ReflectionNames) (m : Module) :
    let first := m.classify names
    let second := first.1.classify names
    second.1 = first.1 ∧
      (∀ t ∈ m.types, names.classify (names.mark t) ≠ names.classify t →
        names.IsDelegate t ∧ names.classify (names.mark t) = some .classType) ∧
      (second.2 = first.2 ↔
        (names.generatedAttribute = names.classAttribute → ∀ t ∈ m.types, ¬ names.IsDelegate t)) := by
  intro first second
  have law := names.classify_mark_eq
  refine ⟨?_, ?_, ?_⟩
  · have types : (m.types.map names.mark).map names.mark = m.types.map names.mark := by
      rw [List.map_map]
      exact List.map_congr_left fun t _ => names.mark_mark t
    simp only [first, second, classify, types]
  · intro t _ changed
    rw [law] at changed ⊢
    split at changed
    · rename_i both
      exact ⟨both.2, if_pos both⟩
    · exact absurd rfl changed
  · refine (Categorized.file_map_eq_iff names names.mark m.types).trans ?_
    constructor
    · intro kept coincide t member delegate
      have same := kept t member
      rw [law, if_pos ⟨coincide, delegate⟩] at same
      rcases delegate with result | result
      · cases same.trans result
      · cases same.trans result
    · intro apart t member
      rw [law, if_neg fun both => apart both.1 t member both.2]

-- The settings are sound, though a multicast delegate is marked with the attribute of classes.
theorem delegate_marked_as_class :
    let names : ReflectionNames := { classAttribute := "Weft.Generated" }
    let settings : Settings := { reflection := names }
    let delegate : TypeDecl := ⟨"Game", "OnHit", .classType, some ⟨none, "Weft", "MulticastDelegate"⟩, [], []⟩
    let m : Module := ⟨magicNumber, 1, 0, ⟨"Game", "1"⟩, [], [delegate], [], none⟩
    settings.validate = .ok settings ∧
      (m.classify names).2 = { multicastDelegates := [0] } ∧
      ((m.classify names).1.classify names).2 = { classes := [0] } ∧
      ((m.classify names).1.classify names).1 = (m.classify names).1 ∧
      ¬ ((m.classify names).1.classify names).2 = (m.classify names).2 := by
  intro names settings delegate m
  obtain ⟨unchanged, _, stable⟩ := reclassification_stable_iff names m
  have isDelegate : names.IsDelegate delegate := .inl (by decide +kernel)
  have faultless : settings.fault = none := by decide +kernel
  refine ⟨by rw [Settings.validate, faultless], by decide +kernel, by decide +kernel, unchanged, fun same => ?_⟩
  exact stable.mp same rfl delegate List.mem_cons_self isDelegate

end Module

end Loom
