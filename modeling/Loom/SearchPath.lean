import Loom.Failure
import Loom.Task
import Loom.Text.Blank

set_option autoImplicit false

namespace Loom

structure SearchPath where
  references : List String := []
  dirs : List Path := []
deriving DecidableEq, Repr

namespace SearchPath

def dirOf? (reference : String) : Option Path :=
  match (Path.ofString reference).parent? with
  | some dir => if dir.chars = [] then none else some dir
  | none => none

def add {ε : Type} (search : SearchPath) (raw : String) :
    Task ε (Except Failure Unit × SearchPath) := do
  let reference := Text.unquote raw
  let search := { search with references := search.references ++ [reference] }
  match dirOf? reference with
  | none => return (.ok (), search)
  | some dir =>
    if search.dirs.any (·.same dir) then return (.ok (), search)
    else if ← Task.isDir dir then do
      Task.tell (.searchDirAdded dir)
      return (.ok (), { search with dirs := search.dirs ++ [dir] })
    -- A rejected reference stays listed.
    else return (.error (.referenceDirNotFound dir), search)

def addAll (search : SearchPath) : List String → Task Failure SearchPath
  | [] => return search
  | raw :: rest => do
    let (result, search) ← search.add raw
    Task.ofExcept result
    search.addAll rest

def ofReferences (references : List String) : Task Failure SearchPath := addAll {} references

def candidate (dir : Path) (moduleName : String) : Path :=
  dir.join (moduleName.toList ++ '.' :: Module.fileExtension)

def findIn {ε : Type} (moduleName : String) : List Path → Task ε (Option Path)
  | [] => return none
  | dir :: rest => do
    if ← Task.isFile (candidate dir moduleName) then return some (candidate dir moduleName)
    else findIn moduleName rest

def resolve {ε : Type} (search : SearchPath) (reference : Identity) : Task ε (Option Path) :=
  findIn reference.name search.dirs

end SearchPath

end Loom
