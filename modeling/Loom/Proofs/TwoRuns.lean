import Loom.Proofs.Files.Same
import Loom.Proofs.Tasks

set_option autoImplicit false

/-! Two runs side by side: of one task on trees that hold the same, and of tasks that only look, each at a tree of its
own. -/
namespace Loom.Task

variable {ε δ α β γ ζ : Type}

-- Whatever a task does, it cannot tell two trees apart that hold the same.
theorem run_same (t : Task ε α) {fs other : FileSystem} (same : fs.Same other) :
    (t.run other).result = (t.run fs).result ∧ (t.run fs).files.Same (t.run other).files := by
  induction t generalizing fs other with
  | done a => exact ⟨rfl, same⟩
  | fail e => exact ⟨rfl, same⟩
  | report event next ih => exact ih same
  | kind path next ih =>
      rw [run, run, same.kind]
      exact ih _ same
  | read path next ih =>
      rw [run, run, same.read]
      exact ih _ same
  | write path content next ih =>
      have wrote := FileSystem.alike_write same path content
      simp only [run, wrote.answer]
      exact ih _ wrote.files
  | makeDirs path next ih =>
      have made := FileSystem.alike_make_dirs same path
      simp only [run, made.answer]
      exact ih _ made.files
  | removeTree path next ih =>
      have removed := FileSystem.alike_remove_tree same path
      simp only [run, removed.answer]
      exact ih _ removed.files
  | copy source target next ih =>
      have copied := FileSystem.alike_copy same source target
      simp only [run, copied.answer]
      exact ih _ copied.files

theorem bind_eq (t : Task ε β) (f : β → Task ε α) : t >>= f = t.bind f := rfl

theorem run_bind_same {t u : Task ε β} {fs other : FileSystem} (result : (u.run other).result = (t.run fs).result)
    (files : (t.run fs).files.Same (u.run other).files) (f : β → Task ε α) :
    ((u >>= f).run other).result = ((t >>= f).run fs).result ∧
      ((t >>= f).run fs).files.Same ((u >>= f).run other).files := by
  rw [bind_eq, bind_eq, run_bind, run_bind, result]
  cases (t.run fs).result with
  | ok b => exact run_same (f b) files
  | error e => exact ⟨rfl, files⟩

structure Agree (same : α → β → Prop) (t : Task ε α) (fs : FileSystem) (u : Task ε β) (other : FileSystem) : Prop where
  files : (t.run fs).files = fs
  otherFiles : (u.run other).files = other
  result : (∃ a b, (t.run fs).result = .ok a ∧ (u.run other).result = .ok b ∧ same a b) ∨
    ∃ e, (t.run fs).result = .error e ∧ (u.run other).result = .error e

section Rules

variable {fs other : FileSystem} {same : α → β → Prop}

theorem agree_of_result {t u : Task ε α} (files : (t.run fs).files = fs) (otherFiles : (u.run other).files = other)
    (result : (u.run other).result = (t.run fs).result) : t.Agree Eq fs u other := by
  refine ⟨files, otherFiles, ?_⟩
  rw [result]
  cases (t.run fs).result with
  | ok a => exact .inl ⟨a, a, rfl, rfl, rfl⟩
  | error e => exact .inr ⟨e, rfl, rfl⟩

theorem Agree.result_map {t u : Task ε α} {f : α → γ} (agree : t.Agree (fun a b => f b = f a) fs u other) :
    (u.run other).result.map f = (t.run fs).result.map f := by
  rcases agree.result with ⟨a, b, found, otherFound, same⟩ | ⟨e, failed, otherFailed⟩
  · rw [found, otherFound]
    exact congrArg Except.ok same
  · rw [failed, otherFailed]

theorem agree_mono {t : Task ε α} {u : Task ε β} {closer : α → β → Prop} (agree : t.Agree closer fs u other)
    (wider : ∀ a b, closer a b → same a b) : t.Agree same fs u other := by
  refine ⟨agree.files, agree.otherFiles, agree.result.imp_left ?_⟩
  rintro ⟨a, b, found, otherFound, close⟩
  exact ⟨a, b, found, otherFound, wider a b close⟩

theorem Agree.result_eq {t u : Task ε α} (agree : t.Agree Eq fs u other) :
    (u.run other).result = (t.run fs).result := by
  have same := (agree_mono agree fun _ _ => Eq.symm : t.Agree (fun a b => id b = id a) fs u other).result_map
  rwa [Except.map_id, id, id] at same

theorem agree_bind {t : Task ε γ} {u : Task ε ζ} {f : γ → Task ε α} {g : ζ → Task ε β} {mid : γ → ζ → Prop}
    (first : t.Agree mid fs u other) (next : ∀ c d, mid c d → (f c).Agree same fs (g d) other) :
    (t >>= f).Agree same fs (u >>= g) other := by
  have run := run_bind t f fs
  have otherRun := run_bind u g other
  rw [first.files] at run
  rw [first.otherFiles] at otherRun
  rw [bind_eq, bind_eq]
  rcases first.result with ⟨c, d, found, otherFound, close⟩ | ⟨e, failed, otherFailed⟩
  · have later := next c d close
    rw [found] at run
    rw [otherFound] at otherRun
    exact ⟨by rw [run]; exact later.files, by rw [otherRun]; exact later.otherFiles,
      by rw [run, otherRun]; exact later.result⟩
  · rw [failed] at run
    rw [otherFailed] at otherRun
    exact ⟨by rw [run], by rw [otherRun], .inr ⟨e, by rw [run], by rw [otherRun]⟩⟩

theorem agree_pure {a : α} {b : β} (holds : same a b) : (pure a : Task ε α).Agree same fs (pure b) other :=
  ⟨rfl, rfl, .inl ⟨a, b, rfl, rfl, holds⟩⟩

theorem agree_fail (e : ε) : (.fail e : Task ε α).Agree same fs (.fail e : Task ε β) other :=
  ⟨rfl, rfl, .inr ⟨e, rfl, rfl⟩⟩

theorem agree_tell (event otherEvent : Event) : (tell event : Task ε Unit).Agree Eq fs (tell otherEvent) other :=
  ⟨rfl, rfl, .inl ⟨(), (), rfl, rfl, rfl⟩⟩

theorem agree_is_file {path : Path} (kind : other.kind? path = fs.kind? path) :
    (isFile path : Task ε Bool).Agree Eq fs (isFile path) other := by
  refine agree_of_result rfl rfl ?_
  simp only [isFile, run, kind]

theorem agree_read_file {path : Path} {explain : IoError → ε} (read : other.read path = fs.read path) :
    (readFile path explain).Agree Eq fs (readFile path explain) other := by
  have looks : ∀ fs : FileSystem, (readFile path explain).Looks fs _ fun _ => True :=
    fun fs => looks_read_file path fun _ => trivial
  refine agree_of_result (looks_files (looks fs)) (looks_files (looks other)) ?_
  simp only [readFile, run, read]
  cases fs.read path with
  | ok content => rfl
  | error e => rfl

theorem agree_or_fail (explain : δ → ε) (answer : Except δ α) :
    (orFail explain answer).Agree Eq fs (orFail explain answer) other := by
  cases answer with
  | ok a => exact agree_pure rfl
  | error e => exact agree_fail (explain e)

theorem agree_attempt {t u : Task δ α} (agree : t.Agree Eq fs u other) :
    (t.attempt : Task ε (Except δ α)).Agree Eq fs u.attempt other := by
  refine agree_of_result ?_ ?_ ?_
  · rw [run_attempt]
    exact agree.files
  · rw [run_attempt]
    exact agree.otherFiles
  · rw [run_attempt, run_attempt, agree.result_eq]

theorem agree_of_looks {t : Task ε α} {u : Task ε β} {good : α → Prop} {otherGood : β → Prop}
    (looks : t.Looks fs good fun _ => False) (otherLooks : u.Looks other otherGood fun _ => False) :
    t.Agree (fun a b => good a ∧ otherGood b) fs u other := by
  obtain ⟨a, result, holds⟩ := looks_succeeds looks
  obtain ⟨b, otherResult, otherHolds⟩ := looks_succeeds otherLooks
  exact ⟨looks_files looks, looks_files otherLooks, .inl ⟨a, b, result, otherResult, holds, otherHolds⟩⟩

theorem agree_each {f : γ → Task ε α} {g : γ → Task ε β} (items : List γ)
    (agree : ∀ c ∈ items, (f c).Agree same fs (g c) other) :
    (each f items).Agree (List.Forall₂ same) fs (each g items) other := by
  induction items with
  | nil => exact agree_pure .nil
  | cons c rest ih =>
      obtain ⟨first, later⟩ := List.forall_mem_cons.mp agree
      apply agree_bind first
      intro a b holds
      apply agree_bind (ih later)
      intro answers others alike
      exact agree_pure (.cons holds alike)

end Rules

end Loom.Task
