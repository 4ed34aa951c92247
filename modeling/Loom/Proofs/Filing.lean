import Loom.Proofs.Classification
import Mathlib.Data.List.Nodup
import Mathlib.Data.List.TakeWhile

set_option autoImplicit false

/-! What makes a type one of a category is said for each category on its own; a type is filed under the first that it
fits and marked, or else left alone. -/
namespace Loom

def IsOpenPart (front name : String) : Prop :=
  '\x60' ∉ front.toList ∧ (name = front ∨ ∃ arity, name = front ++ "\x60" ++ arity)

theorem is_open_part_iff (front name : String) :
    IsOpenPart front name ↔ String.ofList (name.toList.takeWhile (· ≠ '\x60')) = front := by
  have unstopped : ∀ {cs : List Char}, '\x60' ∉ cs → ∀ c ∈ cs, decide (c ≠ '\x60') = true := by
    intro cs plain c member
    exact decide_eq_true fun same => plain (same ▸ member)
  have stopped : ∀ {cs : List Char} (arity : List Char), '\x60' ∉ cs →
      (cs ++ '\x60' :: arity).takeWhile (· ≠ '\x60') = cs := by
    intro cs arity plain
    rw [List.takeWhile_append_of_pos (unstopped plain)]
    simp
  constructor
  · intro part
    obtain ⟨plain, rfl | ⟨arity, rfl⟩⟩ := part
    · rw [List.takeWhile_eq_self_iff.mpr (unstopped plain), String.ofList_toList]
    · rw [String.toList_append, String.toList_append, List.append_assoc]
      change String.ofList ((front.toList ++ '\x60' :: arity.toList).takeWhile (· ≠ '\x60')) = front
      rw [stopped arity.toList plain, String.ofList_toList]
  · intro taken
    subst taken
    by_cases generic : '\x60' ∈ name.toList
    · obtain ⟨before, arity, whole, plain⟩ := List.eq_append_cons_of_mem generic
      rw [whole, stopped arity plain]
      refine ⟨by rwa [String.toList_ofList], .inr ⟨String.ofList arity, ?_⟩⟩
      rw [← String.toList_inj, whole]
      simp
    · rw [List.takeWhile_eq_self_iff.mpr (unstopped generic), String.ofList_toList]
      exact ⟨generic, .inl rfl⟩

def TypeDecl.DerivesFrom (t : TypeDecl) (name : String) : Prop :=
  ∃ base front, t.base = some base ∧ IsOpenPart front base.name ∧ qualified base.space front = name

theorem TypeDecl.derives_from_iff (t : TypeDecl) (name : String) :
    t.DerivesFrom name ↔ t.base.map TypeRef.openName = some name := by
  rw [Option.map_eq_some_iff]
  constructor
  · intro derives
    obtain ⟨base, front, found, part, same⟩ := derives
    refine ⟨base, found, ?_⟩
    rw [TypeRef.openName, (is_open_part_iff front base.name).mp part, same]
  · intro named
    obtain ⟨base, found, same⟩ := named
    exact ⟨base, _, found, (is_open_part_iff _ base.name).mpr rfl, same⟩

instance (t : TypeDecl) (name : String) : Decidable (t.DerivesFrom name) :=
  decidable_of_iff _ (t.derives_from_iff name).symm

namespace Category

def matchingOrder : List Category :=
  [.classType, .enumType, .structType, .interfaceType, .multicastDelegate, .delegate]

theorem mem_matching_order (category : Category) : category ∈ matchingOrder := by
  cases category <;> decide

theorem all_nodup : all.Nodup := by decide

end Category

namespace ReflectionNames

variable (names : ReflectionNames)

def Fits (t : TypeDecl) : Category → Prop
  | .classType => t.kind = .classType ∧ names.classAttribute ∈ t.attributes
  | .enumType => t.kind = .enumType ∧ names.enumAttribute ∈ t.attributes
  | .structType => t.kind = .valueType ∧ names.structAttribute ∈ t.attributes
  | .interfaceType => t.kind = .interfaceType ∧ names.interfaceAttribute ∈ t.attributes
  | .multicastDelegate => t.kind = .classType ∧ t.DerivesFrom names.multicastDelegateBase
  | .delegate => t.kind = .classType ∧ t.DerivesFrom names.delegateBase

instance (t : TypeDecl) : (category : Category) → Decidable (names.Fits t category)
  | .classType | .enumType | .structType | .interfaceType | .multicastDelegate | .delegate =>
    inferInstanceAs (Decidable (_ ∧ _))

theorem classify_base_eq (t : TypeDecl) :
    t.base.bind names.classifyBase =
      if t.DerivesFrom names.multicastDelegateBase then some .multicastDelegate
      else if t.DerivesFrom names.delegateBase then some .delegate
      else none := by
  simp only [TypeDecl.derives_from_iff]
  cases t.base with
  | none => rfl
  | some base => simp [classifyBase]

theorem classify_eq_first_fit (t : TypeDecl) :
    names.classify t = Category.matchingOrder.find? fun category => names.Fits t category := by
  rw [classify, classify_base_eq]
  cases kind : t.kind with
  | classType =>
      by_cases marked : names.classAttribute ∈ t.attributes
      · simp [Category.matchingOrder, Fits, kind, TypeDecl.hasAttribute, marked]
      · by_cases multicast : t.DerivesFrom names.multicastDelegateBase
        · simp [Category.matchingOrder, Fits, kind, TypeDecl.hasAttribute, marked, multicast]
        · by_cases single : t.DerivesFrom names.delegateBase
          · simp [Category.matchingOrder, Fits, kind, TypeDecl.hasAttribute, marked, multicast, single]
          · simp [Category.matchingOrder, Fits, kind, TypeDecl.hasAttribute, marked, multicast, single]
  | enumType | valueType | interfaceType =>
      dsimp only
      split
      · rename_i marked
        rw [TypeDecl.hasAttribute, List.contains_iff_mem] at marked
        simp [Category.matchingOrder, Fits, kind, marked]
      · rename_i unmarked
        rw [TypeDecl.hasAttribute, List.contains_iff_mem] at unmarked
        simp [Category.matchingOrder, Fits, kind, unmarked]

theorem classified_iff_fits (t : TypeDecl) :
    (names.classify t).isSome = true ↔ ∃ category, names.Fits t category := by
  rw [classify_eq_first_fit, List.find?_isSome]
  constructor
  · intro found
    obtain ⟨category, _, fits⟩ := found
    exact ⟨category, of_decide_eq_true fits⟩
  · intro found
    obtain ⟨category, fits⟩ := found
    exact ⟨category, category.mem_matching_order, decide_eq_true fits⟩

instance (t : TypeDecl) : Decidable (∃ category, names.Fits t category) :=
  decidable_of_iff _ (names.classified_iff_fits t)

end ReflectionNames

namespace Categorized

theorem size_push (c : Categorized) (category : Category) (index : Nat) :
    (c.push category index).size = c.size + 1 := by
  cases category <;> simp [size, Category.all, push, get] <;> omega

theorem size_file (names : ReflectionNames) (start : Nat) (c : Categorized) (types : List TypeDecl) :
    (file names start c types).size = c.size + types.countP fun t => (names.classify t).isSome := by
  induction types generalizing start c with
  | nil => simp [file]
  | cons t rest ih =>
      rw [file, List.countP_cons]
      cases names.classify t with
      | none => simp [ih]
      | some category =>
          simp [ih, size_push]
          omega

end Categorized

namespace Module

theorem classify_increasing (names : ReflectionNames) (m : Module) (category : Category) :
    ((m.classify names).2.get category).Pairwise (· < ·) := by
  rw [classify, Categorized.get_filed]
  have indices := List.filter_sublist (l := m.types.zipIdx) (p := fun entry => names.classify entry.1 = some category)
  refine List.Pairwise.sublist (indices.map Prod.snd) ?_
  rw [List.zipIdx_map_snd]
  exact List.pairwise_lt_range'

theorem classify_disjoint (names : ReflectionNames) (m : Module) :
    (Category.all.flatMap (m.classify names).2.get).Nodup := by
  rw [List.nodup_flatMap]
  refine ⟨fun category _ => (m.classify_increasing names category).imp Nat.ne_of_lt, ?_⟩
  refine Category.all_nodup.imp fun {one other} apart => ?_
  intro i here there
  obtain ⟨t, found, filed⟩ := (Categorized.mem_file names one m.types i).mp here
  obtain ⟨u, again, refiled⟩ := (Categorized.mem_file names other m.types i).mp there
  cases found.symm.trans again
  exact apart (Option.some.inj (filed.symm.trans refiled))

/-- This holds for any names, even where some coincide: a type that several categories fit is filed under the first of
them. -/
theorem classification_partitions (names : ReflectionNames) (m : Module) :
    let after := (m.classify names).1
    let filed := (m.classify names).2
    (∀ i, (∃ category, i ∈ filed.get category) ↔ ∃ t category, m.types[i]? = some t ∧ names.Fits t category) ∧
    (∀ i category, i ∈ filed.get category ↔ ∃ t, m.types[i]? = some t ∧
      Category.matchingOrder.find? (fun c => names.Fits t c) = some category) ∧
    (Category.all.flatMap filed.get).Nodup ∧
    (∀ category, (filed.get category).Pairwise (· < ·)) ∧
    filed.size = m.types.countP (fun t => ∃ category, names.Fits t category) ∧
    after = { m with
      types := m.types.map fun t =>
        { t with
          attributes :=
            if (∃ category, names.Fits t category) ∧ names.generatedAttribute ∉ t.attributes
            then t.attributes ++ [names.generatedAttribute] else t.attributes } } := by
  intro after filed
  have listed := fun category => Categorized.mem_file names category m.types
  refine ⟨fun i => ?_, fun i category => ?_, m.classify_disjoint names, m.classify_increasing names, ?_, ?_⟩
  · constructor
    · intro inside
      obtain ⟨category, member⟩ := inside
      obtain ⟨t, found, filed⟩ := (listed category i).mp member
      obtain ⟨fit, fits⟩ := (names.classified_iff_fits t).mp (by rw [filed, Option.isSome_some])
      exact ⟨t, fit, found, fits⟩
    · intro fitting
      obtain ⟨t, fit, found, fits⟩ := fitting
      obtain ⟨category, filed⟩ := Option.isSome_iff_exists.mp ((names.classified_iff_fits t).mpr ⟨fit, fits⟩)
      exact ⟨category, (listed category i).mpr ⟨t, found, filed⟩⟩
  · simp only [← names.classify_eq_first_fit]
    exact listed category i
  · refine (Categorized.size_file names 0 {} m.types).trans ((Nat.zero_add _).trans ?_)
    refine List.countP_congr fun t _ => ?_
    rw [names.classified_iff_fits, decide_eq_true_iff]
  · simp only [← names.classified_iff_fits, ← names.mark_eq]
    rfl

end Module

end Loom
