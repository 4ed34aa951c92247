import Loom.Category
import Loom.Task
import Loom.Text.Quoted
import Loom.Toml.Parser

set_option autoImplicit false

namespace Loom

structure Settings where
  glueSuffix : String := "Glue"
  stagingDir : String := ".weft-staging"
  manifestName : String := "weft.assemblyloadorder.json"
  readSymbols : Bool := true
  prettyMetadata : Bool := true
  reflection : ReflectionNames := {}
deriving DecidableEq, Repr

inductive SettingsFault where
  | stagingDir (value : String)
  | manifestName (value : String)
  | emptyName (key : String)
  | equalDelegateBases
deriving DecidableEq, Repr

inductive SettingsError where
  | io (error : IoError)
  | malformed
  | invalid (fault : SettingsFault)
deriving DecidableEq, Repr

def SettingsFault.message : SettingsFault → String
  | .stagingDir value => "staging_dir must be a single directory name, got " ++ Text.quoted value
  | .manifestName value => "manifest_name must be a plain file name, got " ++ Text.quoted value
  | .emptyName key => s!"reflection.{key} cannot be empty"
  | .equalDelegateBases =>
    "reflection.delegate_base and reflection.multicast_delegate_base must differ"

namespace SettingsError

def malformedText : String := "not a table of settings"

def message : SettingsError → String
  | .io error => "Failed to read configuration file: " ++ error.message
  | .malformed => "Failed to parse configuration: " ++ malformedText
  | .invalid fault => "Invalid configuration: " ++ fault.message

def causes : SettingsError → List String
  | .io error => [error.message]
  | .malformed => [malformedText]
  | .invalid _ => []

end SettingsError

namespace ReflectionNames

def keyed (names : ReflectionNames) : List (String × String) :=
  [("class_attribute", names.classAttribute), ("struct_attribute", names.structAttribute),
    ("enum_attribute", names.enumAttribute), ("interface_attribute", names.interfaceAttribute),
    ("multicast_delegate_base", names.multicastDelegateBase), ("delegate_base", names.delegateBase),
    ("generated_attribute", names.generatedAttribute)]

def set? (names : ReflectionNames) (key : String) : Toml → Option ReflectionNames
  | .text value =>
    match key with
    | "class_attribute" => some { names with classAttribute := value }
    | "struct_attribute" => some { names with structAttribute := value }
    | "enum_attribute" => some { names with enumAttribute := value }
    | "interface_attribute" => some { names with interfaceAttribute := value }
    | "multicast_delegate_base" => some { names with multicastDelegateBase := value }
    | "delegate_base" => some { names with delegateBase := value }
    | "generated_attribute" => some { names with generatedAttribute := value }
    | _ => none
  | _ => none

def ofToml? : Toml → Option ReflectionNames
  | .table entries => entries.foldlM (fun names (key, value) => names.set? key value) {}
  | .list items =>
    ((({} : ReflectionNames).keyed.map (·.1)).zip items).foldlM
      (fun names (key, value) => names.set? key value) {}
  | _ => none

end ReflectionNames

namespace Settings

def fileName : List Char := "weft.toml".toList

def set? (s : Settings) (key : String) (value : Toml) : Option Settings :=
  match key, value with
  | "glue_suffix", .text text => some { s with glueSuffix := text }
  | "staging_dir", .text text => some { s with stagingDir := text }
  | "manifest_name", .text text => some { s with manifestName := text }
  | "read_symbols", .switch on => some { s with readSymbols := on }
  | "pretty_metadata", .switch on => some { s with prettyMetadata := on }
  | "reflection", names => (ReflectionNames.ofToml? names).map fun names => { s with reflection := names }
  | _, _ => none

def ofToml? : Toml → Option Settings
  | .table entries => entries.foldlM (fun s (key, value) => s.set? key value) {}
  | _ => none

def isNested (name : String) : Bool :=
  name.toList.contains '/' || name.toList.contains '\\' || name = "." || name = ".."

def isPlainName (name : String) : Bool := name ≠ "" && !isNested name

def fault (s : Settings) : Option SettingsFault :=
  if !isPlainName s.stagingDir then some (.stagingDir s.stagingDir)
  else if !isPlainName s.manifestName then some (.manifestName s.manifestName)
  else
    match s.reflection.keyed.find? (·.2 = "") with
    | some (key, _) => some (.emptyName key)
    | none =>
      if s.reflection.delegateBase = s.reflection.multicastDelegateBase then some .equalDelegateBases
      else none

def validate (s : Settings) : Except SettingsError Settings :=
  match s.fault with
  | none => .ok s
  | some fault => .error (.invalid fault)

def ofText (text : String) : Except SettingsError Settings :=
  match (Toml.parse text).bind ofToml? with
  | some s => s.validate
  | none => .error .malformed

def isGlue (s : Settings) (moduleName : String) : Bool :=
  s.glueSuffix ≠ "" && s.glueSuffix.toList.isSuffixOf moduleName.toList

def ofFile (path : Path) : Task SettingsError Settings := do
  let bytes ← Task.readFile path .io
  match Bytes.toText? bytes with
  | some text => Task.ofExcept (ofText text)
  | none => .fail (.io .notText)

def discover (dir : Path) : Task SettingsError Settings := do
  let path := dir.join fileName
  if ← Task.isFile path then do
    Task.tell (.settingsLoading path)
    ofFile path
  else return {}

end Settings

end Loom
