import Loom.CommandLine

set_option autoImplicit false

namespace Loom.Program

def osCode? (e : IO.Error) : Option UInt32 :=
  match e with
  | .alreadyExists _ code _ | .noFileOrDirectory _ code _ | .inappropriateType _ code _
  | .invalidArgument _ code _ => some (min code (0 - code))
  | .resourceBusy code _ | .unsatisfiedConstraints code _ | .otherError code _ =>
    some (min code (0 - code))
  | _ => none

def ioError (e : IO.Error) : IoError :=
  match osCode? e with
  | some 2 => .notFound
  | some 16 => .busy
  | some 17 => .alreadyExists
  | some 20 => .notDirectory
  | some 21 => .isDirectory
  | some 22 => .invalidArgument
  | some 36 => .nameTooLong
  | some 39 => .notEmpty
  | _ => .other (toString e)

def tryAction {α : Type} (action : IO α) : IO (Except IoError α) := do
  try return .ok (← action) catch e => return .error (ioError e)

def kindOnDisk (path : String) : IO (Option EntryKind) := do
  match ← tryAction (do (← IO.FS.Handle.mk path .read).read 1) with
  | .ok _ => return some .file
  | .error .isDirectory => return some .directory
  | .error _ => return none

def readBytes (path : String) : IO Bytes := do
  return (← IO.FS.readBinFile path).data.toList

def writeBytes (path : String) (content : Bytes) : IO Unit :=
  IO.FS.writeBinFile path ⟨content.toArray⟩

def copyFile (source target : String) : IO Unit := do
  IO.FS.writeBinFile target (← IO.FS.readBinFile source)

def ensureDir (path : Path) : IO (Except IoError Unit) := do
  match ← tryAction (IO.FS.createDir path.text) with
  | .error .alreadyExists =>
    return if (← kindOnDisk path.text) = some .directory then .ok () else .error .alreadyExists
  | made => return made

def makeChain : List Path → IO (Except IoError Unit)
  | [] => return .ok ()
  | path :: outer => do
    match ← ensureDir path with
    | .error .notFound =>
      match ← makeChain outer with
      | .ok () => ensureDir path
      | failed => return failed
    | made => return made

def perform {ε α : Type} (tell : Event → IO Unit) : Task ε α → IO (Except ε α)
  | .done a => return .ok a
  | .fail e => return .error e
  | .report event next => do
    tell event
    perform tell next
  | .kind path next => do perform tell (next (← kindOnDisk path.text))
  | .read path next => do perform tell (next (← tryAction (readBytes path.text)))
  | .write path content next => do
    perform tell (next (← tryAction (writeBytes path.text content)))
  | .makeDirs path next => do perform tell (next (← makeChain path.chain))
  | .removeTree path next => do perform tell (next (← tryAction (IO.FS.removeDirAll path.text)))
  | .copy source target next => do
    perform tell (next (← tryAction (copyFile source.text target.text)))

def environment : IO CommandLine.Environment := do
  let named ← ["NO_COLOR", "TERM", "RUST_LOG"].mapM fun name => do
    return (← IO.getEnv name).map fun value => (name, value)
  return named.filterMap id

def runArguments (arguments : CommandLine.Arguments) : IO CommandLine.Answer := do
  let env ← environment
  let (filter, complaints) := arguments.filter env
  for complaint in complaints do
    IO.eprintln (CommandLine.complaintLine complaint)
  let tell (event : Event) : IO Unit := do
    if filter.shows event then IO.eprintln event.line
  let result : Except Empty CommandLine.Answer ← perform tell (arguments.answer env)
  match result with
  | .ok answer => return answer
  | .error impossible => nomatch impossible

def answer (args : List String) : IO CommandLine.Answer :=
  match CommandLine.Arguments.parse args with
  | .ok arguments => runArguments arguments
  | .error stop => return stop.answer

end Loom.Program

def main (args : List String) : IO UInt32 := do
  let answer ← Loom.Program.answer args
  IO.print answer.output
  return answer.code.toUInt32
