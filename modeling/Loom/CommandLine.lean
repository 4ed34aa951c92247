import Loom.Batch
import Loom.CommandLine.Arguments
import Loom.CommandLine.Styled
import Loom.Log
import Loom.Transformer.Registration

set_option autoImplicit false

namespace Loom.CommandLine

structure Complaint where
  context : String
  message : String
  causes : List String
deriving DecidableEq, Repr

def Complaint.text (c : Complaint) : String := ": ".intercalate (c.context :: c.message :: c.causes)

def ofFailure (context : String) (e : Failure) : Complaint := ⟨context, e.message, e.causes⟩

def ofReadError (context : String) (e : ReadError) : Complaint :=
  ⟨context, Module.wording.read e, e.causes⟩

def ofSettingsError (context : String) (e : SettingsError) : Complaint :=
  ⟨context, e.message, e.causes⟩

def complain {ε α : Type} (explain : ε → Complaint) (t : Task ε α) : Task Complaint α := do
  Task.orFail explain (← t.attempt)

def loadSettings : Option Path → Task Complaint Settings
  | some path =>
    complain (ofSettingsError ("Failed to load configuration " ++ path.text)) (Settings.ofFile path)
  | none =>
    complain (ofSettingsError "Failed to load configuration from the current directory")
      (Settings.discover ".")

def wovenLines (names : List String) : List Piece :=
  names.flatMap fun name => [.success "  woven ", .plain name, .newline]

def skippedLines (names : List String) : List Piece :=
  names.flatMap fun name => [.warning "skipped ", .plain name, .dim " (glue)", .newline]

def reportLines (outputDir : Path) (report : Batch.Report) : List Piece :=
  wovenLines report.loadOrder ++ skippedLines report.skipped
    ++ [.bold s!"{report.loadOrder.length} modules woven, {report.outputs.length + 1} files written to {outputDir.text}",
      .newline]

def orderLine (settings : Settings) (loaded : LoadedModule) : List Piece :=
  if settings.isGlue loaded.module.name then [.plain loaded.stem, .dim " (glue)", .newline]
  else [.plain loaded.stem, .newline]

def padded (width : Nat) (s : String) : String :=
  s ++ String.ofList (List.replicate (width - s.length) ' ')

def typeLine (names : ReflectionNames) (t : TypeDecl) : List Piece :=
  let category := match names.classify t with
    | some category => Piece.info ("  " ++ padded 18 category.name)
    | none => Piece.dim ("  " ++ padded 18 "-")
  [category, .plain t.fullName, .newline]

def moduleLines (names : ReflectionNames) (m : Module) : List Piece :=
  .bold m.identity.fullName :: (if m.hasFlag Module.wovenFlag then [.dim " (woven)"] else [])
    ++ [.newline] ++ m.types.flatMap (typeLine names)

def Command.task : Command → Task Complaint (List Piece)
  | .weave output references targets config glueSuffix noSymbols => do
    let settings ← loadSettings config
    let settings := match glueSuffix with
      | some suffix => { settings with glueSuffix := suffix }
      | none => settings
    let settings := if noSymbols then { settings with readSymbols := false } else settings
    let (result, _) ← Batch.run registration settings ⟨references, targets, output⟩ ()
    let report ← Task.orFail (ofFailure s!"Weaving into {output.text} failed") result
    return reportLines output report
  | .order references targets => do
    let settings ← loadSettings none
    let plan ← complain (ofFailure "Failed to load the batch") (Batch.plan references targets false)
    return plan.processed.flatMap (orderLine settings)
  | .inspect path config => do
    let settings ← loadSettings config
    let m ← complain (ofReadError ("Failed to read module " ++ path.text)) (readModule path)
    return moduleLines settings.reflection m

structure Answer where
  code : UInt8
  output : String
deriving DecidableEq, Repr

def versionText : String := "weft 0.2.0\n"

def Arguments.answer {ε : Type} (env : Environment) (args : Arguments) : Task ε Answer := do
  match ← args.command.task.attempt with
  | .ok pieces =>
    return ⟨0, String.join (pieces.map (Piece.render (isColored env args.color)))⟩
  | .error complaint => do
    Task.tell (.commandFailed complaint.text)
    return ⟨1, ""⟩

def levelName : Nat → String
  | 0 => "warn"
  | 1 => "info"
  | 2 => "debug"
  | _ => "trace"

def Arguments.filter (env : Environment) (args : Arguments) : LogFilter × List String :=
  LogFilter.parse ((env.lookup "RUST_LOG").getD (levelName args.verbose))

def complaintLine (complaint : String) : String := "warning: " ++ complaint ++ ", ignoring it"

def Stop.answer : Stop → Answer
  | .usage => ⟨2, ""⟩
  | .version => ⟨0, versionText⟩
  | .help => ⟨0, ""⟩

structure Session where
  answer : Answer
  log : List String
  files : FileSystem

def session (env : Environment) (args : List String) (files : FileSystem) : Session :=
  match Arguments.parse args with
  | .error stop => ⟨stop.answer, [], files⟩
  | .ok arguments =>
    let (filter, complaints) := arguments.filter env
    let outcome := (arguments.answer env : Task Empty Answer).run files
    let answer := match outcome.result with
      | .ok answer => answer
      | .error impossible => nomatch impossible
    ⟨answer, complaints.map complaintLine ++ (outcome.events.filter filter.shows).map Event.line,
      outcome.files⟩

end Loom.CommandLine
