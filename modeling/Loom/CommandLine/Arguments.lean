import Loom.Path

set_option autoImplicit false

namespace Loom.CommandLine

inductive Flag where
  | verbose
  | color
  | output
  | reference
  | config
  | glueSuffix
  | noSymbols
  | version
  | help
deriving DecidableEq, Repr

inductive Verb where
  | weave
  | order
  | inspect
deriving DecidableEq, Repr

structure Given where
  verbose : Nat := 0
  color : Option String := none
  output : Option String := none
  references : List String := []
  config : Option String := none
  glueSuffix : Option String := none
  noSymbols : Bool := false
  operands : List String := []
deriving DecidableEq, Repr

inductive Stop where
  | usage
  | version
  | help
deriving DecidableEq, Repr

abbrev Parsed := Except Stop

namespace Flag

def accepted : Option Verb → List Flag
  | none => [.verbose, .color, .version, .help]
  | some .weave => [.verbose, .color, .help, .output, .reference, .config, .glueSuffix, .noSymbols]
  | some .order => [.verbose, .color, .help, .reference]
  | some .inspect => [.verbose, .color, .help, .config]

def long : Flag → String
  | .verbose => "verbose"
  | .color => "color"
  | .output => "output"
  | .reference => "reference"
  | .config => "config"
  | .glueSuffix => "glue-suffix"
  | .noSymbols => "no-symbols"
  | .version => "version"
  | .help => "help"

def short? : Flag → Option Char
  | .verbose => some 'v'
  | .output => some 'o'
  | .reference => some 'r'
  | .config => some 'c'
  | .version => some 'V'
  | .help => some 'h'
  | .color | .glueSuffix | .noSymbols => none

def takesValue : Flag → Bool
  | .color | .output | .reference | .config | .glueSuffix => true
  | .verbose | .noSymbols | .version | .help => false

end Flag

namespace Given

def once (old : Option String) (value : String) : Parsed (Option String) :=
  if old.isSome then .error .usage else .ok (some value)

def path (value : String) : Parsed String := if value = "" then .error .usage else .ok value

def color? (value : String) : Parsed String :=
  if ["auto", "always", "never"].contains value then .ok value else .error .usage

def raise (g : Given) : Flag → Parsed Given
  | .verbose => .ok { g with verbose := min (g.verbose + 1) 255 }
  | .noSymbols => if g.noSymbols then .error .usage else .ok { g with noSymbols := true }
  | .version => .error .version
  | .help => .error .help
  | _ => .error .usage

def assign (g : Given) (flag : Flag) (value : String) : Parsed Given :=
  match flag with
  | .color => do return { g with color := ← once g.color (← color? value) }
  | .output => do return { g with output := ← once g.output (← path value) }
  | .config => do return { g with config := ← once g.config (← path value) }
  | .glueSuffix => do return { g with glueSuffix := ← once g.glueSuffix value }
  | .reference => .ok { g with references := g.references ++ [value] }
  | _ => .error .usage

end Given

inductive Look where
  | operand
  | separator
  | long (name : List Char) (value : Option (List Char))
  | short (flags : List Char)

def Look.of : List Char → Look
  | ['-', '-'] => .separator
  | '-' :: '-' :: rest =>
    let name := rest.takeWhile (· ≠ '=')
    .long name (if name.length = rest.length then none else some (rest.drop (name.length + 1)))
  | '-' :: c :: rest => .short (c :: rest)
  | _ => .operand

inductive Next where
  | done
  | value (flag : Flag)

def readLong (verb : Option Verb) (g : Given) (name : List Char) (value : Option (List Char)) :
    Parsed (Given × Next) :=
  match (Flag.accepted verb).find? (·.long.toList = name) with
  | none => .error .usage
  | some flag =>
    match flag.takesValue, value with
    | true, some value => do return (← g.assign flag (String.ofList value), .done)
    | true, none => .ok (g, .value flag)
    | false, some _ => .error .usage
    | false, none => do return (← g.raise flag, .done)

def readShort (verb : Option Verb) (g : Given) : List Char → Parsed (Given × Next)
  | [] => .ok (g, .done)
  | c :: rest =>
    match (Flag.accepted verb).find? (·.short? = some c) with
    | none => .error .usage
    | some flag =>
      if flag.takesValue then
        match rest with
        | [] => .ok (g, .value flag)
        | '=' :: value => do return (← g.assign flag (String.ofList value), .done)
        | value => do return (← g.assign flag (String.ofList value), .done)
      else do readShort verb (← g.raise flag) rest

def readValue (g : Given) (flag : Flag) (arg : String) : Parsed Given :=
  match Look.of arg.toList with
  | .operand => g.assign flag arg
  | _ => .error .usage

def readCommand (verb : Verb) (g : Given) : Next → List String → Parsed Given
  | .value _, [] => .error .usage
  | .value flag, arg :: rest => do readCommand verb (← readValue g flag arg) .done rest
  | .done, [] => .ok g
  | .done, arg :: rest =>
    match Look.of arg.toList with
    | .operand => readCommand verb { g with operands := g.operands ++ [arg] } .done rest
    | .separator => .ok { g with operands := g.operands ++ rest }
    | .long name value => do
      let (g, next) ← readLong (some verb) g name value
      readCommand verb g next rest
    | .short flags => do
      let (g, next) ← readShort (some verb) g flags
      readCommand verb g next rest

def Verb.ofName? : String → Option Verb
  | "weave" => some .weave
  | "order" => some .order
  | "inspect" => some .inspect
  | _ => none

inductive Command where
  | weave (output : Path) (references targets : List String) (config : Option Path)
    (glueSuffix : Option String) (noSymbols : Bool)
  | order (references targets : List String)
  | inspect (module : Path) (config : Option Path)
deriving DecidableEq, Repr

def Command.ofGiven (g : Given) : Verb → Parsed Command
  | .weave =>
    match g.output, g.operands with
    | none, _ | _, [] => .error .usage
    | some output, targets =>
      .ok (.weave output g.references targets (g.config.map Path.ofString) g.glueSuffix g.noSymbols)
  | .order =>
    match g.operands with
    | [] => .error .usage
    | targets => .ok (.order g.references targets)
  | .inspect =>
    match g.operands with
    | [module] => do return .inspect (← Given.path module) (g.config.map Path.ofString)
    | _ => .error .usage

structure Arguments where
  verbose : Nat
  color : Option String
  command : Command
deriving DecidableEq, Repr

def Arguments.merge (front behind : Given) (command : Command) : Arguments where
  verbose := if behind.verbose = 0 then front.verbose else behind.verbose
  color := behind.color <|> front.color
  command := command

def readProgram (g : Given) : Next → List String → Parsed Arguments
  | _, [] => .error .usage
  | .value flag, arg :: rest => do readProgram (← readValue g flag arg) .done rest
  | .done, arg :: rest =>
    match Verb.ofName? arg with
    | some verb => do
      let behind ← readCommand verb {} .done rest
      return Arguments.merge g behind (← Command.ofGiven behind verb)
    | none =>
      match Look.of arg.toList with
      | .operand => if arg = "help" ∧ rest.isEmpty then .error .help else .error .usage
      | .separator => .error .usage
      | .long name value => do
        let (g, next) ← readLong none g name value
        readProgram g next rest
      | .short flags => do
        let (g, next) ← readShort none g flags
        readProgram g next rest

def Arguments.parse (args : List String) : Parsed Arguments := readProgram {} .done args

end Loom.CommandLine
