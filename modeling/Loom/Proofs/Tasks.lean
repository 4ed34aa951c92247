import Loom.Task
import Loom.Proofs.Files.Directories

set_option autoImplicit false

/-! What a task ensures when it runs on a tree. Sequences are taken apart at their first task. -/
namespace Loom.Task

variable {ε δ α β γ : Type}

theorem bind_assoc (t : Task ε α) (f : α → Task ε β) (g : β → Task ε γ) :
    (t.bind f).bind g = t.bind fun a => (f a).bind g := by
  induction t with
  | done a => rfl
  | fail e => rfl
  | report event next ih => exact congrArg (Task.report event) ih
  | kind path next ih => exact congrArg (Task.kind path) (funext ih)
  | read path next ih => exact congrArg (Task.read path) (funext ih)
  | write path content next ih => exact congrArg (Task.write path content) (funext ih)
  | makeDirs path next ih => exact congrArg (Task.makeDirs path) (funext ih)
  | removeTree path next ih => exact congrArg (Task.removeTree path) (funext ih)
  | copy source target next ih => exact congrArg (Task.copy source target) (funext ih)

theorem bind_done (t : Task ε α) : t.bind .done = t := by
  induction t with
  | done a => rfl
  | fail e => rfl
  | report event next ih => exact congrArg (Task.report event) ih
  | kind path next ih => exact congrArg (Task.kind path) (funext ih)
  | read path next ih => exact congrArg (Task.read path) (funext ih)
  | write path content next ih => exact congrArg (Task.write path content) (funext ih)
  | makeDirs path next ih => exact congrArg (Task.makeDirs path) (funext ih)
  | removeTree path next ih => exact congrArg (Task.removeTree path) (funext ih)
  | copy source target next ih => exact congrArg (Task.copy source target) (funext ih)

instance : LawfulMonad (Task ε) := LawfulMonad.mk' (Task ε) bind_done (fun _ _ => rfl) bind_assoc

theorem run_map (f : α → β) (t : Task ε α) (fs : FileSystem) :
    (f <$> t).run fs = ⟨(t.run fs).result.map f, (t.run fs).files, (t.run fs).events⟩ := by
  change (t.bind fun a => .done (f a)).run fs = _
  rw [run_bind]
  cases (t.run fs).result with
  | ok a => simp only [run, Except.map, List.append_nil]
  | error e => rfl

theorem run_bind_result (t : Task ε β) (f : β → Task ε α) (fs : FileSystem) :
    ((t >>= f).run fs).result =
      match (t.run fs).result with
      | .ok b => ((f b).run (t.run fs).files).result
      | .error e => .error e := by
  change ((t.bind f).run fs).result = _
  rw [run_bind]
  cases (t.run fs).result with
  | ok b => rfl
  | error e => rfl

structure Ensures (t : Task ε α) (fs : FileSystem) (good : α → FileSystem → Prop)
    (bad : ε → FileSystem → Prop) : Prop where
  done : ∀ a, (t.run fs).result = .ok a → good a (t.run fs).files
  failed : ∀ e, (t.run fs).result = .error e → bad e (t.run fs).files

section Rules

variable {fs : FileSystem} {good : α → FileSystem → Prop} {bad : ε → FileSystem → Prop}

theorem ensures_mono {t : Task ε α} {better : α → FileSystem → Prop} {worse : ε → FileSystem → Prop}
    (ensures : t.Ensures fs better worse) (done : ∀ a after, better a after → good a after)
    (failed : ∀ e after, worse e after → bad e after) : t.Ensures fs good bad :=
  ⟨fun a result => done a _ (ensures.done a result), fun e result => failed e _ (ensures.failed e result)⟩

theorem ensures_and {t : Task ε α} {other : α → FileSystem → Prop} {otherBad : ε → FileSystem → Prop}
    (first : t.Ensures fs good bad) (second : t.Ensures fs other otherBad) :
    t.Ensures fs (fun a after => good a after ∧ other a after) fun e after => bad e after ∧ otherBad e after :=
  ⟨fun a result => ⟨first.done a result, second.done a result⟩,
    fun e result => ⟨first.failed e result, second.failed e result⟩⟩

theorem Ensures.succeeds {t : Task ε α} (ensures : t.Ensures fs good fun _ _ => False) :
    ∃ a, (t.run fs).result = .ok a ∧ good a (t.run fs).files := by
  cases result : (t.run fs).result with
  | ok a => exact ⟨a, rfl, ensures.done a result⟩
  | error e => exact (ensures.failed e result).elim

theorem ensures_congr {t next : Task ε α} {mid : FileSystem} (result : (t.run fs).result = (next.run mid).result)
    (files : (t.run fs).files = (next.run mid).files) :
    t.Ensures fs good bad ↔ next.Ensures mid good bad := by
  constructor
  · intro ensures
    exact ⟨fun a done => files ▸ ensures.done a (result.trans done),
      fun e failed => files ▸ ensures.failed e (result.trans failed)⟩
  · intro ensures
    exact ⟨fun a done => files ▸ ensures.done a (result.symm.trans done),
      fun e failed => files ▸ ensures.failed e (result.symm.trans failed)⟩

@[simp] theorem ensures_done (a : α) : (.done a : Task ε α).Ensures fs good bad ↔ good a fs := by
  constructor
  · intro ensures
    exact ensures.done a rfl
  · intro holds
    refine ⟨fun b same => ?_, fun e same => ?_⟩
    · cases same
      exact holds
    · cases same

@[simp] theorem ensures_fail (e : ε) : (.fail e : Task ε α).Ensures fs good bad ↔ bad e fs := by
  constructor
  · intro ensures
    exact ensures.failed e rfl
  · intro holds
    refine ⟨fun b same => ?_, fun other same => ?_⟩
    · cases same
    · cases same
      exact holds

@[simp] theorem ensures_pure (a : α) : (pure a : Task ε α).Ensures fs good bad ↔ good a fs :=
  ensures_done a

@[simp] theorem ensures_bind (t : Task ε β) (f : β → Task ε α) :
    (t >>= f).Ensures fs good bad ↔ t.Ensures fs (fun b mid => (f b).Ensures mid good bad) bad := by
  have run : (t >>= f).run fs = (t.bind f).run fs := rfl
  rw [run_bind] at run
  cases result : (t.run fs).result with
  | ok b =>
      rw [result] at run
      have next : (t >>= f).Ensures fs good bad ↔ (f b).Ensures (t.run fs).files good bad :=
        ensures_congr (by rw [run]) (by rw [run])
      rw [next]
      constructor
      · intro ensures
        refine ⟨fun other same => ?_, fun e same => ?_⟩
        · cases result.symm.trans same
          exact ensures
        · cases result.symm.trans same
      · intro ensures
        exact ensures.done b result
  | error e =>
      rw [result] at run
      constructor
      · intro ensures
        refine ⟨fun b same => ?_, fun other same => ?_⟩
        · cases result.symm.trans same
        · cases result.symm.trans same
          have failed := ensures.failed e (by rw [run])
          rwa [run] at failed
      · intro ensures
        refine ⟨fun a same => ?_, fun other same => ?_⟩
        · rw [run] at same
          cases same
        · rw [run] at same ⊢
          cases same
          exact ensures.failed e result

theorem ensures_then {t : Task ε β} {f : β → Task ε α} {mid : β → FileSystem → Prop}
    (first : t.Ensures fs mid bad) (next : ∀ b after, mid b after → (f b).Ensures after good bad) :
    (t >>= f).Ensures fs good bad :=
  (ensures_bind t f).mpr (ensures_mono first next fun _ _ failed => failed)

@[simp] theorem ensures_attempt (t : Task δ β) {good : Except δ β → FileSystem → Prop} :
    (t.attempt : Task ε (Except δ β)).Ensures fs good bad ↔
      t.Ensures fs (fun b after => good (.ok b) after) fun e after => good (.error e) after := by
  have result : ((t.attempt : Task ε (Except δ β)).run fs).result = .ok (t.run fs).result := by
    rw [run_attempt]
  have files : ((t.attempt : Task ε (Except δ β)).run fs).files = (t.run fs).files := by
    rw [run_attempt]
  constructor
  · intro ensures
    have answered := ensures.done _ result
    rw [files] at answered
    exact ⟨fun b same => same ▸ answered, fun e same => same ▸ answered⟩
  · intro ensures
    refine ⟨fun answer same => ?_, fun e same => ?_⟩
    · rw [files]
      cases result.symm.trans same
      cases own : (t.run fs).result with
      | ok b => exact ensures.done b own
      | error e => exact ensures.failed e own
    · cases result.symm.trans same

@[simp] theorem ensures_report (event : Event) (next : Task ε α) :
    (.report event next : Task ε α).Ensures fs good bad ↔ next.Ensures fs good bad :=
  ensures_congr rfl rfl

@[simp] theorem ensures_tell (event : Event) {good : Unit → FileSystem → Prop} :
    (tell event : Task ε Unit).Ensures fs good bad ↔ good () fs :=
  (ensures_report event _).trans (ensures_done ())

@[simp] theorem ensures_kind (path : Path) (next : Option EntryKind → Task ε α) :
    (.kind path next : Task ε α).Ensures fs good bad ↔ (next (fs.kind? path)).Ensures fs good bad :=
  ensures_congr rfl rfl

@[simp] theorem ensures_kind_of (path : Path) {good : Option EntryKind → FileSystem → Prop} :
    (kindOf path : Task ε _).Ensures fs good bad ↔ good (fs.kind? path) fs :=
  (ensures_kind path _).trans (ensures_done _)

@[simp] theorem ensures_is_file (path : Path) {good : Bool → FileSystem → Prop} :
    (isFile path : Task ε _).Ensures fs good bad ↔ good (fs.kind? path = some .file) fs :=
  (ensures_kind path _).trans (ensures_done _)

@[simp] theorem ensures_is_dir (path : Path) {good : Bool → FileSystem → Prop} :
    (isDir path : Task ε _).Ensures fs good bad ↔ good (fs.kind? path = some .directory) fs :=
  (ensures_kind path _).trans (ensures_done _)

@[simp] theorem ensures_read (path : Path) (next : Except IoError Bytes → Task ε α) :
    (.read path next : Task ε α).Ensures fs good bad ↔ (next (fs.read path)).Ensures fs good bad :=
  ensures_congr rfl rfl

@[simp] theorem ensures_write (path : Path) (content : Bytes) (next : Except IoError Unit → Task ε α) :
    (.write path content next : Task ε α).Ensures fs good bad ↔
      (next (fs.write path content).1).Ensures (fs.write path content).2 good bad := ensures_congr rfl rfl

@[simp] theorem ensures_make_dirs (path : Path) (next : Except IoError Unit → Task ε α) :
    (.makeDirs path next : Task ε α).Ensures fs good bad ↔
      (next (fs.makeDirs path).1).Ensures (fs.makeDirs path).2 good bad := ensures_congr rfl rfl

@[simp] theorem ensures_remove_tree (path : Path) (next : Except IoError Unit → Task ε α) :
    (.removeTree path next : Task ε α).Ensures fs good bad ↔
      (next (fs.removeTree path).1).Ensures (fs.removeTree path).2 good bad := ensures_congr rfl rfl

@[simp] theorem ensures_copy (source target : Path) (next : Except IoError Unit → Task ε α) :
    (.copy source target next : Task ε α).Ensures fs good bad ↔
      (next (fs.copy source target).1).Ensures (fs.copy source target).2 good bad := ensures_congr rfl rfl

@[simp] theorem ensures_or_fail (explain : δ → ε) (answer : Except δ α) :
    (orFail explain answer).Ensures fs good bad ↔
      (∀ a, answer = .ok a → good a fs) ∧ ∀ e, answer = .error e → bad (explain e) fs := by
  cases answer with
  | ok a => simp [orFail]
  | error e => simp [orFail]

@[simp] theorem ensures_of_except (answer : Except ε α) :
    (ofExcept answer).Ensures fs good bad ↔
      (∀ a, answer = .ok a → good a fs) ∧ ∀ e, answer = .error e → bad e fs := by
  cases answer with
  | ok a => simp [ofExcept]
  | error e => simp [ofExcept]

@[simp] theorem ensures_read_file (path : Path) (explain : IoError → ε)
    {good : Bytes → FileSystem → Prop} :
    (readFile path explain).Ensures fs good bad ↔
      (∀ content, fs.read path = .ok content → good content fs) ∧
        ∀ e, fs.read path = .error e → bad (explain e) fs :=
  (ensures_read path _).trans (ensures_or_fail explain (fs.read path))

@[simp] theorem ensures_write_file (path : Path) (content : Bytes) (explain : IoError → ε)
    {good : Unit → FileSystem → Prop} :
    (writeFile path content explain).Ensures fs good bad ↔
      (∀ a, (fs.write path content).1 = .ok a → good a (fs.write path content).2) ∧
        ∀ e, (fs.write path content).1 = .error e → bad (explain e) (fs.write path content).2 :=
  (ensures_write path content _).trans (ensures_or_fail explain (fs.write path content).1)

end Rules

def Looks (t : Task ε α) (fs : FileSystem) (good : α → Prop) (bad : ε → Prop) : Prop :=
  t.Ensures fs (fun a after => after = fs ∧ good a) fun e after => after = fs ∧ bad e

section Looking

variable {fs : FileSystem} {good : α → Prop} {bad : ε → Prop}

theorem looks_files {t : Task ε α} (looks : t.Looks fs good bad) : (t.run fs).files = fs := by
  cases result : (t.run fs).result with
  | ok a => exact (looks.done a result).1
  | error e => exact (looks.failed e result).1

theorem looks_result {t : Task ε α} (looks : t.Looks fs good bad) :
    t.Looks fs (fun a => good a ∧ (t.run fs).result = .ok a) bad :=
  ⟨fun a result => ⟨(looks.done a result).1, (looks.done a result).2, result⟩, looks.failed⟩

theorem looks_of_result {t : Task ε α} {a : α} (found : (t.run fs).result = .ok a) (files : (t.run fs).files = fs) :
    t.Looks fs (· = a) fun _ => False := by
  refine ⟨fun other done => ⟨files, Except.ok.inj (done.symm.trans found)⟩, fun e failed => ?_⟩
  cases failed.symm.trans found

theorem looks_succeeds {t : Task ε α} (looks : t.Looks fs good fun _ => False) :
    ∃ a, (t.run fs).result = .ok a ∧ good a := by
  obtain ⟨a, result, _, holds⟩ :=
    Ensures.succeeds (ensures_mono looks (fun _ _ facts => facts) fun _ _ facts => facts.2)
  exact ⟨a, result, holds⟩

theorem looks_then {t : Task ε β} {f : β → Task ε α} {mid : β → Prop} (first : t.Looks fs mid bad)
    (next : ∀ b, mid b → (f b).Looks fs good bad) : (t >>= f).Looks fs good bad := by
  apply ensures_then first
  intro b after facts
  obtain ⟨same, holds⟩ := facts
  rw [same]
  exact next b holds

theorem looks_mono {t : Task ε α} {better : α → Prop} {worse : ε → Prop} (looks : t.Looks fs better worse)
    (done : ∀ a, better a → good a) (failed : ∀ e, worse e → bad e) : t.Looks fs good bad :=
  ensures_mono looks (fun a _ facts => ⟨facts.1, done a facts.2⟩) fun e _ facts => ⟨facts.1, failed e facts.2⟩

theorem looks_pure {a : α} (holds : good a) : (pure a : Task ε α).Looks fs good bad :=
  (ensures_pure a).mpr ⟨rfl, holds⟩

theorem looks_fail {e : ε} (holds : bad e) : (.fail e : Task ε α).Looks fs good bad :=
  (ensures_fail e).mpr ⟨rfl, holds⟩

theorem looks_tell (event : Event) : (tell event : Task ε Unit).Looks fs (fun _ => True) bad :=
  (ensures_tell event).mpr ⟨rfl, trivial⟩

theorem looks_is_file (path : Path) :
    (isFile path : Task ε Bool).Looks fs (fun answer => answer = true ↔ fs.kind? path = some .file) bad :=
  (ensures_is_file path).mpr ⟨rfl, decide_eq_true_iff⟩

theorem looks_is_dir (path : Path) : (isDir path : Task ε Bool).Looks fs (fun _ => True) bad :=
  (ensures_is_dir path).mpr ⟨rfl, trivial⟩

theorem looks_or_fail {explain : δ → ε} {answer : Except δ α} (done : ∀ a, answer = .ok a → good a)
    (failed : ∀ e, bad (explain e)) : (orFail explain answer).Looks fs good bad :=
  (ensures_or_fail explain answer).mpr ⟨fun a same => ⟨rfl, done a same⟩, fun e _ => ⟨rfl, failed e⟩⟩

theorem looks_read_file (path : Path) {explain : IoError → ε} (failed : ∀ e, bad (explain e)) :
    (readFile path explain).Looks fs (fun content => fs.read path = .ok content) bad :=
  (ensures_read_file path explain).mpr ⟨fun _ found => ⟨rfl, found⟩, fun e _ => ⟨rfl, failed e⟩⟩

theorem looks_read_file_again {path : Path} {content : Bytes} (found : fs.read path = .ok content)
    {explain : IoError → ε} : (readFile path explain).Looks fs (· = content) bad := by
  refine (ensures_read_file path explain).mpr ⟨fun _ same => ⟨rfl, ?_⟩, fun e failed => ?_⟩
  · exact Except.ok.inj (same.symm.trans found)
  · rw [found] at failed
    cases failed

theorem looks_of_except {answer : Except ε α} (done : ∀ a, answer = .ok a → good a)
    (failed : ∀ e, answer = .error e → bad e) : (ofExcept answer).Looks fs good bad :=
  (ensures_of_except answer).mpr ⟨fun a same => ⟨rfl, done a same⟩, fun e same => ⟨rfl, failed e same⟩⟩

theorem looks_attempt {t : Task δ β} {good : β → Prop} {worse : δ → Prop} (looks : t.Looks fs good worse) :
    (t.attempt : Task ε (Except δ β)).Looks fs
      (fun answer => (∀ b, answer = .ok b → good b) ∧ ∀ e, answer = .error e → worse e) bad := by
  unfold Looks
  rw [ensures_attempt]
  apply ensures_mono looks
  · intro b after facts
    refine ⟨facts.1, fun other same => ?_, fun e same => ?_⟩
    · cases same
      exact facts.2
    · cases same
  · intro e after facts
    refine ⟨facts.1, fun b same => ?_, fun other same => ?_⟩
    · cases same
    · cases same
      exact facts.2

theorem looks_each {f : β → Task ε α} {good : β → α → Prop} (items : List β)
    (looks : ∀ b ∈ items, (f b).Looks fs (good b) bad) :
    (each f items).Looks fs (fun answers => List.Forall₂ good items answers) bad := by
  induction items with
  | nil => exact looks_pure .nil
  | cons b rest ih =>
      apply looks_then (looks b List.mem_cons_self)
      intro a first
      apply looks_then (ih fun c member => looks c (List.mem_cons_of_mem b member))
      intro others later
      exact looks_pure (.cons first later)

end Looking

-- Whatever a task does, a tree stays a tree and the working directory stays where it is.
theorem run_keeps_shape (t : Task ε α) {fs : FileSystem} (tree : fs.IsTree) :
    (t.run fs).files.here = fs.here ∧ (t.run fs).files.IsTree := by
  induction t generalizing fs with
  | done a => exact ⟨rfl, tree⟩
  | fail e => exact ⟨rfl, tree⟩
  | report event next ih => exact ih tree
  | kind path next ih => exact ih _ tree
  | read path next ih => exact ih _ tree
  | write path content next ih =>
      obtain ⟨here, still⟩ := ih (fs.write path content).1 (FileSystem.is_tree_write tree path content)
      exact ⟨here.trans (FileSystem.write_keeps tree path content).here, still⟩
  | makeDirs path next ih =>
      obtain ⟨grows, made⟩ := FileSystem.make_dirs_grows tree path
      obtain ⟨here, still⟩ := ih (fs.makeDirs path).1 made
      exact ⟨here.trans grows.here, still⟩
  | removeTree path next ih =>
      obtain ⟨here, still⟩ := ih (fs.removeTree path).1 (FileSystem.is_tree_remove_tree tree path)
      exact ⟨here.trans (FileSystem.here_remove_tree fs path), still⟩
  | copy source target next ih =>
      obtain ⟨here, still⟩ := ih (fs.copy source target).1 (FileSystem.is_tree_copy tree source target)
      exact ⟨here.trans (FileSystem.copy_keeps tree source target).here, still⟩

theorem ensures_tree (t : Task ε α) {fs : FileSystem} (tree : fs.IsTree) :
    t.Ensures fs (fun _ after => after.IsTree) fun _ after => after.IsTree :=
  ⟨fun _ _ => (run_keeps_shape t tree).2, fun _ _ => (run_keeps_shape t tree).2⟩

end Loom.Task
