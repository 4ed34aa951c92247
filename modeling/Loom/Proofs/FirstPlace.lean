import Mathlib.Data.List.Find

set_option autoImplicit false

/-! A scan goes over a list with a rule that knows the entries before the one it is asked about; several scans are
gone through by rank. -/
namespace Loom

def FirstOf {α : Type} (values : Nat → Option α) (a : α) : Prop :=
  ∃ i, values i = some a ∧ ∀ j < i, values j = none

theorem first_of_iff_head {α : Type} (values : Nat → Option α) (a : α) :
    FirstOf values a ↔ values 0 = some a ∨ values 0 = none ∧ FirstOf (fun i => values (i + 1)) a := by
  constructor
  · intro first
    obtain ⟨i, here, before⟩ := first
    cases i with
    | zero => exact .inl here
    | succ i =>
        exact .inr ⟨before 0 (Nat.succ_pos i), i, here, fun j less => before (j + 1) (Nat.succ_lt_succ less)⟩
  · intro first
    rcases first with here | ⟨nothing, i, here, before⟩
    · exact ⟨0, here, fun j less => absurd less (Nat.not_lt_zero j)⟩
    · refine ⟨i + 1, here, fun j less => ?_⟩
      cases j with
      | zero => exact nothing
      | succ j => exact before j (Nat.lt_of_succ_lt_succ less)

theorem no_first_of_iff {α : Type} (values : Nat → Option α) : (∀ a, ¬ FirstOf values a) ↔ ∀ i, values i = none := by
  constructor
  · intro nothing i
    induction i using Nat.strong_induction_on with
    | _ i before =>
        cases here : values i with
        | none => rfl
        | some a => exact absurd ⟨i, here, before⟩ (nothing a)
  · intro nothing a first
    obtain ⟨i, here, _⟩ := first
    cases here.symm.trans (nothing i)

section Scan

variable {α β : Type} (rule : List α → α → Option β)

def firstBy (seen : List α) : List α → Option β
  | [] => none
  | a :: rest => (rule seen a).or (firstBy (seen ++ [a]) rest)

def foundAt (seen items : List α) (i : Nat) : Option β := items[i]?.bind (rule (seen ++ items.take i))

theorem found_at_zero (seen : List α) (a : α) (rest : List α) : foundAt rule seen (a :: rest) 0 = rule seen a := by
  simp [foundAt]

theorem found_at_succ (seen : List α) (a : α) (rest : List α) (i : Nat) :
    foundAt rule seen (a :: rest) (i + 1) = foundAt rule (seen ++ [a]) rest i := by
  simp [foundAt]

theorem first_by_eq_some_iff (seen items : List α) (b : β) :
    firstBy rule seen items = some b ↔ FirstOf (foundAt rule seen items) b := by
  induction items generalizing seen with
  | nil => simp [firstBy, foundAt, FirstOf]
  | cons a rest ih =>
      rw [first_of_iff_head, found_at_zero]
      simp only [found_at_succ]
      rw [← ih, firstBy, Option.or_eq_some_iff]

end Scan

section Groups

theorem find_some_cons {α β : Type} (f : α → Option β) (a : α) (rest : List α) :
    (a :: rest).findSome? f = (f a).or (rest.findSome? f) := by
  rw [List.findSome?_cons]
  cases f a <;> rfl

variable {κ ε : Type} (rank : κ → Nat)

-- What occurs at the first place: nothing occurs before it in its group, nor anywhere in a group of lower rank.
def AtFirstPlace (occurs : κ → Nat → ε → Prop) (e : ε) : Prop :=
  ∃ group i, occurs group i e ∧ (∀ j < i, ∀ other, ¬ occurs group j other) ∧
    ∀ earlier, rank earlier < rank group → ∀ j other, ¬ occurs earlier j other

variable {rank} {occurs : κ → Nat → ε → Prop} {found : κ → Nat → Option ε} {first : κ → Option ε}
  (spelled : ∀ group i e, occurs group i e ↔ found group i = some e)
include spelled

theorem nothing_occurs_iff (group : κ) (i : Nat) : (∀ e, ¬ occurs group i e) ↔ found group i = none := by
  simp only [spelled]
  exact Option.eq_none_iff_forall_ne_some.symm

variable (counted : ∀ group e, first group = some e ↔ FirstOf (found group) e)
include counted

theorem first_eq_none_iff (group : κ) : first group = none ↔ ∀ i e, ¬ occurs group i e := by
  rw [Option.eq_none_iff_forall_ne_some]
  simp only [Ne, counted, no_first_of_iff, nothing_occurs_iff spelled]

variable {groups : List κ} (complete : ∀ group, group ∈ groups)
include complete

theorem find_some_eq_none_iff : groups.findSome? first = none ↔ ∀ group i e, ¬ occurs group i e := by
  simp only [List.findSome?_eq_none_iff, complete, forall_const, first_eq_none_iff spelled counted]

theorem find_some_eq_some_iff (ordered : groups.Pairwise fun a b => rank a < rank b) (e : ε) :
    groups.findSome? first = some e ↔ AtFirstPlace rank occurs e := by
  rw [List.findSome?_eq_some_iff]
  constructor
  · intro reported
    obtain ⟨front, group, back, split, here, before⟩ := reported
    obtain ⟨i, there, above⟩ := (counted group e).mp here
    rw [split] at ordered
    obtain ⟨_, later, _⟩ := List.pairwise_append.mp ordered
    refine ⟨group, i, (spelled _ _ _).mpr there, fun j less => (nothing_occurs_iff spelled _ _).mpr (above j less), ?_⟩
    intro earlier less
    rcases List.mem_append.mp (split ▸ complete earlier) with inFront | behind
    · exact (first_eq_none_iff spelled counted earlier).mp (before earlier inFront)
    -- No group of lower rank stands behind this one.
    · rcases List.mem_cons.mp behind with same | inBack
      · exact absurd (same ▸ less) (Nat.lt_irrefl _)
      · exact absurd ((List.pairwise_cons.mp later).1 earlier inBack) (Nat.lt_asymm less)
  · intro reported
    obtain ⟨group, i, here, above, before⟩ := reported
    obtain ⟨front, back, split⟩ := List.append_of_mem (complete group)
    rw [split] at ordered
    obtain ⟨_, _, lower⟩ := List.pairwise_append.mp ordered
    refine ⟨front, group, back, split, (counted group e).mpr ⟨i, (spelled _ _ _).mp here, fun j less => ?_⟩, ?_⟩
    · exact (nothing_occurs_iff spelled _ _).mp (above j less)
    · exact fun earlier inFront => (first_eq_none_iff spelled counted earlier).mpr
        (before earlier (lower earlier inFront group List.mem_cons_self))

end Groups

end Loom
