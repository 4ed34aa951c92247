import Loom.FileSystem
import Mathlib.Data.List.Induction

set_option autoImplicit false

namespace Loom.FileSystem

def Below (l spot : Location) : Prop := l <+: spot ∧ l ≠ spot

instance (l spot : Location) : Decidable (Below l spot) :=
  inferInstanceAs (Decidable (l <+: spot ∧ l ≠ spot))

theorem below_child (l : Location) (name : List Char) : Below l (l ++ [name]) := by
  refine ⟨List.prefix_append l _, fun same => ?_⟩
  have longer := congrArg List.length same
  rw [List.length_append, List.length_singleton] at longer
  omega

theorem not_below_parent (l : Location) (name : List Char) : ¬ Below (l ++ [name]) l := by
  intro below
  have shorter := below.1.length_le
  rw [List.length_append, List.length_singleton] at shorter
  omega

theorem sibling_outside {l : Location} {name other : List Char} (apart : l ++ [name] ≠ l ++ [other]) :
    ¬ l ++ [other] <+: l ++ [name] := by
  intro front
  apply apart
  apply Eq.symm
  apply front.eq_of_length
  rw [List.length_append, List.length_append, List.length_singleton, List.length_singleton]

theorem at_or_below_iff (l spot : Location) : l <+: spot ↔ spot = l ∨ Below l spot := by
  constructor
  · intro front
    by_cases same : l = spot
    · exact .inl same.symm
    · exact .inr ⟨front, same⟩
  · intro cases
    rcases cases with same | below
    · exact same ▸ List.prefix_rfl
    · exact below.1

theorem below_trans {l mid spot : Location} (first : Below l mid) (second : mid <+: spot) : Below l spot := by
  refine ⟨first.1.trans second, fun same => first.2 ?_⟩
  rw [← same] at second
  exact first.1.eq_of_length_le second.length_le

theorem lookup_filter (keep : Location → Bool) (entries : List (Location × Entry)) (l : Location) :
    (entries.filter fun e => keep e.1).lookup l = if keep l then entries.lookup l else none := by
  induction entries with
  | nil => simp
  | cons e rest ih =>
      obtain ⟨spot, entry⟩ := e
      by_cases same : l = spot
      · subst same
        by_cases kept : keep l = true <;> simp [kept, ih]
      · have other : (l == spot) = false := by simpa using same
        by_cases kept : keep spot = true <;> simp [kept, ih, List.lookup_cons, other]

@[simp] theorem get_root (fs : FileSystem) : fs.get? [] = some .directory := by
  rw [get?, if_pos rfl]

@[simp] theorem here_erase (fs : FileSystem) (l : Location) : (fs.erase l).here = fs.here := rfl

@[simp] theorem here_clear (fs : FileSystem) (l : Location) : (fs.clear l).here = fs.here := rfl

@[simp] theorem here_put (fs : FileSystem) (l : Location) (entry : Entry) :
    (fs.put l entry).here = fs.here := rfl

theorem get_erase (fs : FileSystem) {l : Location} (inner : l ≠ []) (spot : Location) :
    (fs.erase l).get? spot = if l <+: spot then none else fs.get? spot := by
  unfold get?
  by_cases root : spot = []
  · rw [root, if_pos rfl, if_pos rfl, if_neg fun front => inner (List.prefix_nil.mp front)]
  · rw [if_neg root, if_neg root, erase, lookup_filter fun e => !l.isPrefixOf e]
    by_cases front : l <+: spot
    · simp [front, List.isPrefixOf_iff_prefix.mpr front]
    · have apart : l.isPrefixOf spot = false := by
        rw [← Bool.not_eq_true, List.isPrefixOf_iff_prefix]
        exact front
      simp [front, apart]

theorem get_clear (fs : FileSystem) (l spot : Location) :
    (fs.clear l).get? spot = if Below l spot then none else fs.get? spot := by
  unfold get?
  by_cases root : spot = []
  · have apart : ¬ Below l [] := fun below => below.2 (List.prefix_nil.mp below.1)
    rw [root, if_pos rfl, if_pos rfl, if_neg apart]
  · rw [if_neg root, if_neg root, clear, lookup_filter fun e => !l.isPrefixOf e || decide (l = e)]
    by_cases below : Below l spot
    · simp [below, List.isPrefixOf_iff_prefix.mpr below.1, below.2]
    · rw [if_neg below, if_pos]
      by_cases same : l = spot
      · simp [same]
      · have apart : l.isPrefixOf spot = false := by
          rw [← Bool.not_eq_true, List.isPrefixOf_iff_prefix]
          exact fun front => below ⟨front, same⟩
        simp [apart]

theorem get_put (fs : FileSystem) {l : Location} (inner : l ≠ []) (entry : Entry) (spot : Location) :
    (fs.put l entry).get? spot =
      if spot = l then some entry else if Below l spot then none else fs.get? spot := by
  have erased := get_erase fs inner spot
  by_cases same : spot = l
  · rw [if_pos same, same, get?, if_neg inner, put, List.lookup_cons, beq_self_eq_true]
  · have placed : (fs.put l entry).get? spot = (fs.erase l).get? spot := by
      have other : (spot == l) = false := by simpa using same
      unfold get? put
      simp only [List.lookup_cons, other]
    rw [if_neg same, placed, erased]
    have either : (l <+: spot) = Below l spot := by
      rw [at_or_below_iff, eq_false same, false_or]
    simp only [either]

def IsTree (fs : FileSystem) : Prop :=
  ∀ l name, fs.get? (l ++ [name]) ≠ none → fs.get? l = some .directory

theorem empty_is_tree (here : Location) : IsTree ⟨here, []⟩ := by
  intro l name there
  have gone : (⟨here, []⟩ : FileSystem).get? (l ++ [name]) = none := by
    rw [get?, if_neg (by simp)]
    rfl
  exact absurd gone there

theorem directory_above {fs : FileSystem} (tree : fs.IsTree) {l spot : Location} (below : Below l spot)
    (there : fs.get? spot ≠ none) : fs.get? l = some .directory := by
  obtain ⟨⟨more, whole⟩, other⟩ := below
  induction more using List.reverseRecOn generalizing spot with
  | nil => exact absurd (by rw [← whole, List.append_nil]) other
  | append_singleton more name ih =>
      rw [← List.append_assoc] at whole
      rw [← whole] at there
      have parent := tree (l ++ more) name there
      by_cases same : l = l ++ more
      · rwa [← same] at parent
      · exact ih (by rw [parent]; exact Option.some_ne_none _) same rfl

theorem missing_below {fs : FileSystem} (tree : fs.IsTree) {l spot : Location} (missing : fs.get? l = none)
    (front : l <+: spot) : fs.get? spot = none := by
  rcases (at_or_below_iff l spot).mp front with same | below
  · rw [same, missing]
  · by_contra there
    rw [directory_above tree below there] at missing
    cases missing

theorem directory_drop_last {fs : FileSystem} (tree : fs.IsTree) {d : Location}
    (there : fs.get? d = some .directory) : fs.get? d.dropLast = some .directory := by
  rcases List.eq_nil_or_concat d with root | ⟨outer, last, whole⟩
  · rw [root, List.dropLast_nil, get_root]
  · rw [List.concat_eq_append] at whole
    rw [whole] at there ⊢
    rw [List.dropLast_concat]
    exact tree outer last (by rw [there]; exact Option.some_ne_none _)

theorem is_tree_erase {fs : FileSystem} (tree : fs.IsTree) (l : Location) : (fs.erase l).IsTree := by
  intro spot name there
  by_cases inner : l = []
  · have bare : (fs.erase l).entries = [] := by
      rw [erase, inner]
      exact List.filter_eq_nil_iff.mpr fun e _ => by simp
    rw [get?, if_neg (by simp), bare] at there
    exact absurd rfl there
  · rw [get_erase fs inner] at there ⊢
    by_cases front : l <+: spot
    · rw [if_pos (front.trans (List.prefix_append spot _))] at there
      exact absurd rfl there
    · rw [if_neg front]
      apply tree spot name
      split at there
      · exact absurd rfl there
      · exact there

theorem is_tree_clear {fs : FileSystem} (tree : fs.IsTree) (l : Location) : (fs.clear l).IsTree := by
  intro spot name there
  rw [get_clear] at there ⊢
  by_cases below : Below l spot
  · rw [if_pos (below_trans below (List.prefix_append spot _))] at there
    exact absurd rfl there
  · rw [if_neg below]
    apply tree spot name
    split at there
    · exact absurd rfl there
    · exact there

theorem is_tree_put {fs : FileSystem} (tree : fs.IsTree) (l : Location) (name : List Char) (entry : Entry)
    (parent : fs.get? l = some .directory) : (fs.put (l ++ [name]) entry).IsTree := by
  have inner : l ++ [name] ≠ [] := by simp
  intro spot last there
  rw [get_put fs inner] at there ⊢
  by_cases placed : spot ++ [last] = l ++ [name]
  · have same : spot = l := (List.append_inj' placed rfl).1
    rw [same, if_neg (below_child l name).2, if_neg (not_below_parent l name)]
    exact parent
  · rw [if_neg placed] at there
    by_cases below : l ++ [name] <+: spot
    · rw [if_pos] at there
      · exact absurd rfl there
      · refine ⟨below.trans (List.prefix_append spot _), fun same => placed same.symm⟩
    · have other : spot ≠ l ++ [name] := fun same => below (same ▸ List.prefix_rfl)
      rw [if_neg other, if_neg fun inside => below inside.1]
      apply tree spot last
      split at there
      · exact absurd rfl there
      · exact there

theorem leaf_of_missing {fs : FileSystem} {l : Location} (missing : fs.get? l = none) :
    fs.get? l ≠ some .directory := by
  rw [missing]
  exact (Option.some_ne_none _).symm

theorem get_put_leaf {fs : FileSystem} (tree : fs.IsTree) {l : Location}
    (leaf : fs.get? l ≠ some .directory) (entry : Entry) (spot : Location) :
    (fs.put l entry).get? spot = if spot = l then some entry else fs.get? spot := by
  have inner : l ≠ [] := fun root => leaf (root ▸ get_root fs)
  rw [get_put fs inner]
  split
  · rfl
  · split
    · rename_i below
      by_cases there : fs.get? spot = none
      · rw [there]
      · exact absurd (directory_above tree below there) leaf
    · rfl

end Loom.FileSystem
