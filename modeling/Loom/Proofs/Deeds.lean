import Loom.Proofs.Tasks

set_option autoImplicit false

namespace Loom

namespace FileSystem

def opened (fs : FileSystem) (p : Path) : Option Location :=
  match fs.writable p with
  | .ok l => some l
  | .error _ => none

def openedByCopy (fs : FileSystem) (source target : Path) : Option Location :=
  match fs.find source with
  | .ok (_, .file _) => fs.opened target
  | _ => none

theorem opened_eq_some_iff (fs : FileSystem) (p : Path) (l : Location) :
    fs.opened p = some l ↔ fs.writable p = .ok l := by
  unfold opened
  cases fs.writable p with
  | ok spot => simp
  | error e => simp

end FileSystem

structure Deed where
  opened : Option Location
  before : FileSystem
  after : FileSystem

namespace Deed

open FileSystem

def Touches (deed : Deed) (l : Location) : Prop :=
  deed.opened = some l ∨ deed.after.get? l ≠ deed.before.get? l

instance (deed : Deed) (l : Location) : Decidable (deed.Touches l) :=
  inferInstanceAs (Decidable (_ ∨ _))

def write (fs : FileSystem) (p : Path) (content : Bytes) : Deed := ⟨fs.opened p, fs, (fs.write p content).2⟩

def makeDirs (fs : FileSystem) (p : Path) : Deed := ⟨none, fs, (fs.makeDirs p).2⟩

def removeTree (fs : FileSystem) (p : Path) : Deed := ⟨none, fs, (fs.removeTree p).2⟩

def copy (fs : FileSystem) (source target : Path) : Deed :=
  ⟨fs.openedByCopy source target, fs, (fs.copy source target).2⟩

def Deletes (deed : Deed) (l : Location) : Prop := deed.before.get? l ≠ none ∧ deed.after.get? l = none

instance (deed : Deed) (l : Location) : Decidable (deed.Deletes l) :=
  inferInstanceAs (Decidable (_ ∧ _))

theorem unchanged_of_untouched {deed : Deed} {l : Location} (untouched : ¬ deed.Touches l) :
    deed.after.get? l = deed.before.get? l := by
  by_contra changed
  exact untouched (.inr changed)

theorem write_touches {fs : FileSystem} (tree : fs.IsTree) {p : Path} {content : Bytes} {l : Location}
    (touches : (write fs p content).Touches l) : l = fs.place p ∧ (fs.write p content).1 = .ok () := by
  rcases write_cases fs p content with ⟨e, failed⟩ | ⟨written, reaches, unslashed, leaf⟩
  · exfalso
    rcases touches with opens | changed
    · have writes := (opened_eq_some_iff fs p l).mp opens
      rw [FileSystem.write, writes] at failed
      cases failed
    · rw [write, failed] at changed
      exact changed rfl
  · refine ⟨?_, by rw [written]⟩
    rcases touches with opens | changed
    · exact ((writable_eq_ok_iff fs p l).mp ((opened_eq_some_iff fs p l).mp opens)).2.1
    · by_contra other
      exact changed ((write_keeps tree p content).elsewhere l other)

theorem copy_touches {fs : FileSystem} (tree : fs.IsTree) {source target : Path} {l : Location}
    (touches : (copy fs source target).Touches l) : l = fs.place target := by
  rcases touches with opens | changed
  · rw [copy, openedByCopy] at opens
    dsimp only at opens
    split at opens
    · exact ((writable_eq_ok_iff fs target l).mp ((opened_eq_some_iff fs target l).mp opens)).2.1
    · cases opens
  · by_contra other
    exact changed ((copy_keeps tree source target).elsewhere l other)

theorem make_dirs_touches {fs : FileSystem} (tree : fs.IsTree) {p : Path} {l : Location}
    (touches : (makeDirs fs p).Touches l) :
    l ∈ fs.way p ∧ fs.get? l = none ∧ (fs.makeDirs p).2.get? l = some .directory := by
  rcases touches with opens | changed
  · cases opens
  · obtain ⟨missing, onWay, made⟩ := ((make_dirs_grows tree p).1.entries l trivial).resolve_left changed
    exact ⟨onWay, missing, made⟩

theorem write_deletes_nothing {fs : FileSystem} (tree : fs.IsTree) (p : Path) (content : Bytes) (l : Location) :
    ¬ (write fs p content).Deletes l := by
  intro deletes
  obtain ⟨stood, gone⟩ := deletes
  rcases write_cases fs p content with ⟨e, failed⟩ | ⟨written, _, _, leaf⟩
  · rw [write, failed] at gone
    exact stood gone
  · rw [write, written, get_put_leaf tree (leaf_of_look leaf)] at gone
    split at gone
    · cases gone
    · exact stood gone

theorem copy_deletes_nothing {fs : FileSystem} (tree : fs.IsTree) (source target : Path) (l : Location) :
    ¬ (copy fs source target).Deletes l := by
  intro deletes
  obtain ⟨stood, gone⟩ := deletes
  have emptied : (fs.write target []).2.get? l ≠ none :=
    fun lost => write_deletes_nothing tree target [] l ⟨stood, lost⟩
  rcases copy_cases fs source target with ⟨e, failed⟩ | ⟨_, _, _, ⟨e, _, failed⟩ | ⟨content, _, copied⟩⟩
  · rw [copy, failed] at gone
    exact stood gone
  · rw [copy, failed] at gone
    exact emptied gone
  · rw [copy, copied] at gone
    exact write_deletes_nothing (is_tree_write tree target []) target content l ⟨emptied, gone⟩

theorem make_dirs_deletes_nothing {fs : FileSystem} (tree : fs.IsTree) (p : Path) (l : Location) :
    ¬ (makeDirs fs p).Deletes l := by
  intro deletes
  obtain ⟨stood, gone⟩ := deletes
  have changed : (makeDirs fs p).Touches l := .inr fun same => stood (same.symm.trans gone)
  rw [makeDirs, (make_dirs_touches tree changed).2.2] at gone
  cases gone

theorem remove_tree_touches {fs : FileSystem} {p : Path} {l : Location}
    (touches : (removeTree fs p).Touches l) : fs.place p <+: l := by
  rcases touches with opens | changed
  · cases opens
  · by_contra outside
    exact changed (remove_tree_within fs p outside)

end Deed

namespace Task

variable {ε δ α β : Type}

def deeds : Task ε α → FileSystem → List Deed
  | .done _, _ => []
  | .fail _, _ => []
  | .report _ next, fs => next.deeds fs
  | .kind path next, fs => (next (fs.kind? path)).deeds fs
  | .read path next, fs => (next (fs.read path)).deeds fs
  | .write path content next, fs =>
    .write fs path content :: (next (fs.write path content).1).deeds (fs.write path content).2
  | .makeDirs path next, fs =>
    .makeDirs fs path :: (next (fs.makeDirs path).1).deeds (fs.makeDirs path).2
  | .removeTree path next, fs =>
    .removeTree fs path :: (next (fs.removeTree path).1).deeds (fs.removeTree path).2
  | .copy source target next, fs =>
    .copy fs source target :: (next (fs.copy source target).1).deeds (fs.copy source target).2

def Touches (t : Task ε α) (fs : FileSystem) (l : Location) : Prop := ∃ deed ∈ t.deeds fs, deed.Touches l

instance (t : Task ε α) (fs : FileSystem) (l : Location) : Decidable (t.Touches fs l) :=
  inferInstanceAs (Decidable (∃ deed ∈ t.deeds fs, deed.Touches l))

theorem kept_by_deeds {kept : FileSystem → FileSystem → Prop} (refl : ∀ fs, kept fs fs)
    (trans : ∀ {fs mid after}, kept fs mid → kept mid after → kept fs after) (t : Task ε α) {fs : FileSystem}
    (each : ∀ deed ∈ t.deeds fs, kept deed.before deed.after) : kept fs (t.run fs).files := by
  -- Each action starts from the tree that the one before it left.
  induction t generalizing fs with
  | done a => exact refl fs
  | fail e => exact refl fs
  | report event next ih => exact ih each
  | kind path next ih => exact ih _ each
  | read path next ih => exact ih _ each
  | write path content next ih =>
      obtain ⟨first, later⟩ := List.forall_mem_cons.mp each
      exact trans first (ih _ later)
  | makeDirs path next ih =>
      obtain ⟨first, later⟩ := List.forall_mem_cons.mp each
      exact trans first (ih _ later)
  | removeTree path next ih =>
      obtain ⟨first, later⟩ := List.forall_mem_cons.mp each
      exact trans first (ih _ later)
  | copy source target next ih =>
      obtain ⟨first, later⟩ := List.forall_mem_cons.mp each
      exact trans first (ih _ later)

theorem get_of_untouched (t : Task ε α) {fs : FileSystem} {l : Location} (untouched : ¬ t.Touches fs l) :
    (t.run fs).files.get? l = fs.get? l := by
  apply @kept_by_deeds _ _ (fun fs after => after.get? l = fs.get? l) (fun _ => rfl) fun first second => second.trans first
  exact fun deed member => Deed.unchanged_of_untouched fun touches => untouched ⟨deed, member, touches⟩

-- What is gone in the end was taken away by one of the actions.
theorem deleted_by_deed (t : Task ε α) {fs : FileSystem} {l : Location} (stood : fs.get? l ≠ none)
    (gone : (t.run fs).files.get? l = none) : ∃ deed ∈ t.deeds fs, deed.Deletes l := by
  by_contra undone
  have stays := @kept_by_deeds ε α (fun fs after => fs.get? l ≠ none → after.get? l ≠ none) (fun _ there => there)
    (fun first second there => second (first there)) t fs
    fun deed member there lost => undone ⟨deed, member, there, lost⟩
  exact stays stood gone

theorem deeds_bind (t : Task ε β) (f : β → Task ε α) (fs : FileSystem) :
    (t >>= f).deeds fs = t.deeds fs ++
      match (t.run fs).result with
      | .ok b => (f b).deeds (t.run fs).files
      | .error _ => [] := by
  change (t.bind f).deeds fs = _
  induction t generalizing fs with
  | done a => rfl
  | fail e => rfl
  | report event next ih => exact ih fs
  | kind path next ih => exact ih _ fs
  | read path next ih => exact ih _ fs
  | write path content next ih => exact congrArg (_ :: ·) (ih _ _)
  | makeDirs path next ih => exact congrArg (_ :: ·) (ih _ _)
  | removeTree path next ih => exact congrArg (_ :: ·) (ih _ _)
  | copy source target next ih => exact congrArg (_ :: ·) (ih _ _)

theorem deeds_attempt (t : Task ε α) (fs : FileSystem) :
    (t.attempt : Task δ (Except ε α)).deeds fs = t.deeds fs := by
  induction t generalizing fs with
  | done a => rfl
  | fail e => rfl
  | report event next ih => exact ih fs
  | kind path next ih => exact ih _ fs
  | read path next ih => exact ih _ fs
  | write path content next ih => exact congrArg (_ :: ·) (ih _ _)
  | makeDirs path next ih => exact congrArg (_ :: ·) (ih _ _)
  | removeTree path next ih => exact congrArg (_ :: ·) (ih _ _)
  | copy source target next ih => exact congrArg (_ :: ·) (ih _ _)

def Within (allowed : Deed → Prop) (t : Task ε α) (fs : FileSystem) : Prop :=
  ∀ deed ∈ t.deeds fs, allowed deed

section Within

variable {allowed : Deed → Prop} {fs : FileSystem}

@[simp] theorem within_pure (a : α) : (pure a : Task ε α).Within allowed fs := List.forall_mem_nil _

@[simp] theorem within_bind (t : Task ε β) (f : β → Task ε α) :
    (t >>= f).Within allowed fs ↔ t.Within allowed fs ∧
      t.Ensures fs (fun b after => (f b).Within allowed after) fun _ _ => True := by
  unfold Within
  rw [deeds_bind, List.forall_mem_append]
  refine and_congr_right fun _ => ?_
  constructor
  · intro later
    refine ⟨fun b result => ?_, fun _ _ => trivial⟩
    rwa [result] at later
  · intro ensures
    cases result : (t.run fs).result with
    | ok b => exact ensures.done b result
    | error e => exact List.forall_mem_nil _

theorem within_then (tree : fs.IsTree) {t : Task ε β} {f : β → Task ε α} (first : t.Within allowed fs)
    (next : ∀ b after, after.IsTree → after.here = fs.here → (f b).Within allowed after) :
    (t >>= f).Within allowed fs := by
  obtain ⟨here, still⟩ := run_keeps_shape t tree
  exact (within_bind t f).mpr ⟨first, fun b _ => next b _ still here, fun _ _ => trivial⟩

@[simp] theorem within_attempt (t : Task δ β) :
    (t.attempt : Task ε (Except δ β)).Within allowed fs ↔ t.Within allowed fs := by
  rw [Within, deeds_attempt]
  rfl

@[simp] theorem within_or_fail (explain : δ → ε) (answer : Except δ α) :
    (orFail explain answer).Within allowed fs := by
  cases answer with
  | ok a => exact List.forall_mem_nil _
  | error e => exact List.forall_mem_nil _

@[simp] theorem within_tell (event : Event) : (tell event : Task ε Unit).Within allowed fs :=
  List.forall_mem_nil _

@[simp] theorem within_kind_of (path : Path) : (kindOf path : Task ε _).Within allowed fs :=
  List.forall_mem_nil _

@[simp] theorem within_write (path : Path) (content : Bytes) (next : Except IoError Unit → Task ε α) :
    (.write path content next : Task ε α).Within allowed fs ↔ allowed (.write fs path content) ∧
      (next (fs.write path content).1).Within allowed (fs.write path content).2 := List.forall_mem_cons

@[simp] theorem within_write_file (path : Path) (content : Bytes) (explain : IoError → ε) :
    (writeFile path content explain).Within allowed fs ↔ allowed (.write fs path content) :=
  (within_write path content _).trans (and_iff_left (within_or_fail explain _))

@[simp] theorem within_make_dirs (path : Path) (next : Except IoError Unit → Task ε α) :
    (.makeDirs path next : Task ε α).Within allowed fs ↔ allowed (.makeDirs fs path) ∧
      (next (fs.makeDirs path).1).Within allowed (fs.makeDirs path).2 := List.forall_mem_cons

@[simp] theorem within_remove_tree (path : Path) (next : Except IoError Unit → Task ε α) :
    (.removeTree path next : Task ε α).Within allowed fs ↔ allowed (.removeTree fs path) ∧
      (next (fs.removeTree path).1).Within allowed (fs.removeTree path).2 := List.forall_mem_cons

@[simp] theorem within_copy (source target : Path) (next : Except IoError Unit → Task ε α) :
    (.copy source target next : Task ε α).Within allowed fs ↔ allowed (.copy fs source target) ∧
      (next (fs.copy source target).1).Within allowed (fs.copy source target).2 := List.forall_mem_cons

end Within

def Still (t : Task ε α) : Prop := ∀ fs, t.deeds fs = []

section Still

theorem Still.within {t : Task ε α} (still : t.Still) (allowed : Deed → Prop) (fs : FileSystem) :
    t.Within allowed fs := by
  rw [Within, still fs]
  exact List.forall_mem_nil _

theorem still_pure (a : α) : (pure a : Task ε α).Still := fun _ => rfl

theorem still_fail (e : ε) : (.fail e : Task ε α).Still := fun _ => rfl

theorem still_then {t : Task ε β} {f : β → Task ε α} (first : t.Still) (next : ∀ b, (f b).Still) :
    (t >>= f).Still := by
  intro fs
  rw [deeds_bind, first fs, List.nil_append]
  cases (t.run fs).result with
  | ok b => exact next b _
  | error e => rfl

theorem still_attempt {t : Task δ β} (still : t.Still) : (t.attempt : Task ε (Except δ β)).Still :=
  fun fs => (deeds_attempt t fs).trans (still fs)

theorem still_tell (event : Event) : (tell event : Task ε Unit).Still := fun _ => rfl

theorem still_is_file (path : Path) : (isFile path : Task ε Bool).Still := fun _ => rfl

theorem still_is_dir (path : Path) : (isDir path : Task ε Bool).Still := fun _ => rfl

theorem still_or_fail (explain : δ → ε) (answer : Except δ α) : (orFail explain answer).Still := by
  intro fs
  cases answer with
  | ok a => rfl
  | error e => rfl

theorem still_of_except (answer : Except ε α) : (ofExcept answer).Still := by
  intro fs
  cases answer with
  | ok a => rfl
  | error e => rfl

theorem still_read_file (path : Path) (explain : IoError → ε) : (readFile path explain).Still :=
  fun fs => still_or_fail explain (fs.read path) fs

theorem still_each {f : β → Task ε α} (still : ∀ b, (f b).Still) (items : List β) : (each f items).Still := by
  induction items with
  | nil => exact still_pure []
  | cons b rest ih =>
      apply still_then (still b)
      intro a
      exact still_then ih fun others => still_pure (a :: others)

end Still

end Task

end Loom
