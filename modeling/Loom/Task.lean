import Loom.Event
import Loom.FileSystem

set_option autoImplicit false

/-! A task says what it does next for every answer a file action may give, so the same task runs on a tree held as a
value and on the real one. -/
namespace Loom

inductive Task (ε α : Type) where
  | done (result : α)
  | fail (error : ε)
  | report (event : Event) (next : Task ε α)
  | kind (path : Path) (next : Option EntryKind → Task ε α)
  | read (path : Path) (next : Except IoError Bytes → Task ε α)
  | write (path : Path) (content : Bytes) (next : Except IoError Unit → Task ε α)
  | makeDirs (path : Path) (next : Except IoError Unit → Task ε α)
  | removeTree (path : Path) (next : Except IoError Unit → Task ε α)
  | copy (source target : Path) (next : Except IoError Unit → Task ε α)

structure Outcome (ε α : Type) where
  result : Except ε α
  files : FileSystem
  events : List Event

namespace Task

variable {ε δ α β : Type}

def bind : Task ε α → (α → Task ε β) → Task ε β
  | .done a, f => f a
  | .fail e, _ => .fail e
  | .report event next, f => .report event (next.bind f)
  | .kind path next, f => .kind path fun answer => (next answer).bind f
  | .read path next, f => .read path fun answer => (next answer).bind f
  | .write path content next, f => .write path content fun answer => (next answer).bind f
  | .makeDirs path next, f => .makeDirs path fun answer => (next answer).bind f
  | .removeTree path next, f => .removeTree path fun answer => (next answer).bind f
  | .copy source target next, f => .copy source target fun answer => (next answer).bind f

instance : Monad (Task ε) where
  pure := .done
  bind := bind

def attempt : Task ε α → Task δ (Except ε α)
  | .done a => .done (.ok a)
  | .fail e => .done (.error e)
  | .report event next => .report event next.attempt
  | .kind path next => .kind path fun answer => (next answer).attempt
  | .read path next => .read path fun answer => (next answer).attempt
  | .write path content next => .write path content fun answer => (next answer).attempt
  | .makeDirs path next => .makeDirs path fun answer => (next answer).attempt
  | .removeTree path next => .removeTree path fun answer => (next answer).attempt
  | .copy source target next => .copy source target fun answer => (next answer).attempt

def ofExcept : Except ε α → Task ε α
  | .ok a => .done a
  | .error e => .fail e

def orFail (explain : δ → ε) : Except δ α → Task ε α
  | .ok a => .done a
  | .error e => .fail (explain e)

def kindOf (path : Path) : Task ε (Option EntryKind) := .kind path .done

def isFile (path : Path) : Task ε Bool := .kind path fun answer => .done (answer = some .file)

def isDir (path : Path) : Task ε Bool := .kind path fun answer => .done (answer = some .directory)

def tell (event : Event) : Task ε Unit := .report event (.done ())

def readFile (path : Path) (explain : IoError → ε) : Task ε Bytes := .read path (orFail explain)

def writeFile (path : Path) (content : Bytes) (explain : IoError → ε) : Task ε Unit :=
  .write path content (orFail explain)

def each (f : α → Task ε β) : List α → Task ε (List β)
  | [] => .done []
  | a :: rest => do
    let b ← f a
    return b :: (← each f rest)

def run : Task ε α → FileSystem → Outcome ε α
  | .done a, fs => ⟨.ok a, fs, []⟩
  | .fail e, fs => ⟨.error e, fs, []⟩
  | .report event next, fs =>
    let rest := next.run fs
    ⟨rest.result, rest.files, event :: rest.events⟩
  | .kind path next, fs => (next (fs.kind? path)).run fs
  | .read path next, fs => (next (fs.read path)).run fs
  | .write path content next, fs =>
    let (answer, fs) := fs.write path content
    (next answer).run fs
  | .makeDirs path next, fs =>
    let (answer, fs) := fs.makeDirs path
    (next answer).run fs
  | .removeTree path next, fs =>
    let (answer, fs) := fs.removeTree path
    (next answer).run fs
  | .copy source target next, fs =>
    let (answer, fs) := fs.copy source target
    (next answer).run fs

theorem run_bind (t : Task ε α) (f : α → Task ε β) (fs : FileSystem) :
    (t.bind f).run fs =
      match (t.run fs).result with
      | .ok a =>
        let rest := (f a).run (t.run fs).files
        ⟨rest.result, rest.files, (t.run fs).events ++ rest.events⟩
      | .error e => ⟨.error e, (t.run fs).files, (t.run fs).events⟩ := by
  induction t generalizing fs with
  | done a => rfl
  | fail e => rfl
  | report event next ih =>
      simp only [bind, run, ih]
      cases (next.run fs).result <;> rfl
  | kind path next ih => exact ih _ _
  | read path next ih => exact ih _ _
  | write path content next ih => exact ih _ _
  | makeDirs path next ih => exact ih _ _
  | removeTree path next ih => exact ih _ _
  | copy source target next ih => exact ih _ _

theorem run_attempt (t : Task ε α) (fs : FileSystem) :
    (t.attempt : Task δ (Except ε α)).run fs = ⟨.ok (t.run fs).result, (t.run fs).files, (t.run fs).events⟩ := by
  induction t generalizing fs with
  | done a => rfl
  | fail e => rfl
  | report event next ih => simp only [attempt, run, ih]
  | kind path next ih => exact ih _ _
  | read path next ih => exact ih _ _
  | write path content next ih => exact ih _ _
  | makeDirs path next ih => exact ih _ _
  | removeTree path next ih => exact ih _ _
  | copy source target next ih => exact ih _ _

end Task

end Loom
