import Loom.Bytes
import Loom.IoError
import Loom.Path

set_option autoImplicit false

/-! A tree of files and directories as a value. Every operation answers with its result and the tree it leaves, which
a failing operation may have changed in part. -/
namespace Loom

abbrev Location := List (List Char)

inductive Entry where
  | file (content : Bytes)
  | directory
deriving DecidableEq, Repr

inductive EntryKind where
  | file
  | directory
deriving DecidableEq, Repr

def Entry.kind : Entry → EntryKind
  | .file _ => .file
  | .directory => .directory

structure FileSystem where
  here : Location
  entries : List (Location × Entry)
deriving Repr

abbrev FileSystem.After (α : Type) := Except IoError α × FileSystem

namespace FileSystem

def get? (fs : FileSystem) (l : Location) : Option Entry :=
  if l = [] then some .directory else fs.entries.lookup l

def erase (fs : FileSystem) (l : Location) : FileSystem :=
  { fs with entries := fs.entries.filter fun e => !l.isPrefixOf e.1 }

def clear (fs : FileSystem) (l : Location) : FileSystem :=
  { fs with entries := fs.entries.filter fun e => !l.isPrefixOf e.1 || l = e.1 }

def put (fs : FileSystem) (l : Location) (entry : Entry) : FileSystem :=
  { fs.erase l with entries := (l, entry) :: (fs.erase l).entries }

def utf8Length (cs : List Char) : Nat := cs.foldl (fun n c => n + c.utf8Size) 0

def maxNameBytes : Nat := 255

def maxPathBytes : Nat := 4095

-- Where a lookup stands. A spot is held if no name has led to it, but dots alone from where the lookup starts.
structure Spot where
  location : Location
  held : Bool
deriving DecidableEq, Repr

def isDots (name : List Char) : Bool := name = ['.'] ∨ name = ['.', '.']

-- What is at a spot. The working directory and those it is in stay directories when they are removed, but nothing is
-- found in them any more.
def look (fs : FileSystem) (s : Spot) : Option Entry := if s.held then some .directory else fs.get? s.location

def step (fs : FileSystem) (s : Spot) (name : List Char) : Except IoError Spot :=
  match if isDots name then fs.look s else fs.get? s.location with
  | none => .error .notFound
  | some (.file _) => .error .notDirectory
  | some .directory =>
    if name = ['.'] then .ok s
    else if name = ['.', '.'] then .ok { s with location := s.location.dropLast }
    else if maxNameBytes < utf8Length name then .error .nameTooLong
    else .ok ⟨s.location ++ [name], false⟩

def walk (fs : FileSystem) (s : Spot) : List (List Char) → Except IoError Spot
  | [] => .ok s
  | name :: rest =>
    match fs.step s name with
    | .ok s => walk fs s rest
    | .error e => .error e

def names (p : Path) : List (List Char) := (Path.pieces p.chars).filter (· ≠ [])

def base (fs : FileSystem) (p : Path) : Spot := ⟨if p.isAbsolute then [] else fs.here, true⟩

def locate (fs : FileSystem) (p : Path) : Except IoError Spot :=
  if p.chars = [] then .error .notFound
  else if p.chars.contains '\x00' then .error .nulInPath
  else if maxPathBytes < utf8Length p.chars then .error .nameTooLong
  else fs.walk (fs.base p) (names p)

inductive Ending where
  | name
  | slashed
  | dot
  | dotDot
  | root
deriving DecidableEq, Repr

def ending (p : Path) : Ending :=
  match (names p).getLast? with
  | none => .root
  | some name =>
    if name = ['.'] then .dot
    else if name = ['.', '.'] then .dotDot
    else if p.chars.getLast? = some '/' then .slashed
    else .name

def find (fs : FileSystem) (p : Path) : Except IoError (Location × Entry) :=
  match fs.locate p with
  | .error e => .error e
  | .ok s =>
    match fs.look s with
    | none => .error .notFound
    | some (.file content) =>
      if ending p = .slashed then .error .notDirectory else .ok (s.location, .file content)
    | some .directory => .ok (s.location, .directory)

def kind? (fs : FileSystem) (p : Path) : Option EntryKind :=
  match fs.find p with
  | .ok (_, entry) => some entry.kind
  | .error _ => none

def read (fs : FileSystem) (p : Path) : Except IoError Bytes :=
  match fs.find p with
  | .error e => .error e
  | .ok (_, .file content) => .ok content
  | .ok (_, .directory) => .error .isDirectory

def writable (fs : FileSystem) (p : Path) : Except IoError Location :=
  match fs.locate p with
  | .error e => .error e
  | .ok s =>
    if ending p = .slashed ∨ fs.look s = some .directory then .error .isDirectory else .ok s.location

def write (fs : FileSystem) (p : Path) (content : Bytes) : After Unit :=
  match fs.writable p with
  | .error e => (.error e, fs)
  | .ok l => (.ok (), fs.put l (.file content))

def makeDir (fs : FileSystem) (p : Path) : After Unit :=
  match fs.locate p with
  | .error e => (.error e, fs)
  | .ok s =>
    match fs.look s with
    | some _ => (.error .alreadyExists, fs)
    | none => (.ok (), fs.put s.location .directory)

def ensureDir (fs : FileSystem) (p : Path) : After Unit :=
  match fs.makeDir p with
  | (.error .alreadyExists, fs) =>
    if fs.kind? p = some .directory then (.ok (), fs) else (.error .alreadyExists, fs)
  | made => made

def makeChain (fs : FileSystem) : List Path → After Unit
  | [] => (.ok (), fs)
  | p :: outer =>
    match fs.ensureDir p with
    | (.error .notFound, fs) =>
      match fs.makeChain outer with
      | (.ok (), fs) => fs.ensureDir p
      | failed => failed
    | made => made

def makeDirs (fs : FileSystem) (p : Path) : After Unit := fs.makeChain p.chain

-- Takes away the empty directory at a location. One that a path names by a dot component stays; where the way to it
-- is gone, so is the directory.
def removeDir (fs : FileSystem) (p : Path) (l : Location) : After Unit :=
  let outer := (names p).dropLast.filter (· ≠ ['.'])
  match fs.walk (fs.base p) outer with
  | .error .notFound => (.ok (), fs)
  | .error e => (.error e, fs)
  | .ok parent =>
    if fs.look parent = none then (.ok (), fs)
    else
      match ending p with
      | .root => (.error .busy, fs)
      | .dot => (.error .invalidArgument, fs)
      | .dotDot => (.error .notEmpty, fs)
      | .name | .slashed => (.ok (), fs.erase l)

def removeTree (fs : FileSystem) (p : Path) : After Unit :=
  match fs.find p with
  | .error e => (.error e, fs)
  | .ok (_, .file _) => (.error .notDirectory, fs)
  | .ok (l, .directory) => (fs.clear l).removeDir p l

def remove (fs : FileSystem) (p : Path) : After Unit :=
  match fs.find p with
  | .ok (l, .file _) => (.ok (), fs.erase l)
  | _ => fs.removeTree p

def copy (fs : FileSystem) (source target : Path) : After Unit :=
  match fs.find source with
  | .error e => (.error e, fs)
  | .ok (_, .directory) => (.error .notRegular, fs)
  | .ok (_, .file _) =>
    -- The target is emptied before the source is read.
    match fs.write target [] with
    | (.error e, fs) => (.error e, fs)
    | (.ok (), emptied) =>
      match emptied.read source with
      | .error e => (.error e, emptied)
      | .ok content => emptied.write target content

def listing (fs : FileSystem) (p : Path) : List (Path × Entry) :=
  match fs.find p with
  | .ok (l, .directory) =>
    let below := fs.entries.filter fun e => l.isPrefixOf e.1 && e.1 != l
    let sorted := below.mergeSort fun a b => !(b.1 < a.1)
    sorted.map fun e => ((e.1.drop l.length).foldl Path.join p, e.2)
  | _ => []

end FileSystem

end Loom
