import Loom.Module

set_option autoImplicit false

namespace Loom

inductive VerifyError where
  | duplicateType (name : String)
  | duplicateReference (name : String)
  | selfReference (name : String)
  | unknownRegistration (name : String)
  | duplicateRegistration (name : String)
  | invalidHeader (reason : String)
deriving DecidableEq, Repr

def VerifyError.message : VerifyError → String
  | .duplicateType name => "Duplicate type definition: " ++ name
  | .duplicateReference name => "Duplicate module reference: " ++ name
  | .selfReference name => "Module references itself: " ++ name
  | .unknownRegistration name => "Registration for undeclared type: " ++ name
  | .duplicateRegistration name => "Type registered more than once: " ++ name
  | .invalidHeader reason => "Module validation error: " ++ reason

namespace Module

def headerFault (m : Module) : Option String :=
  if m.magic ≠ magicNumber then some "Invalid magic number"
  else if m.format ≠ currentFormat then some s!"Unsupported version: {m.format.toNat}"
  else none

def firstRepeated (seen : List String) : List String → Option String
  | [] => none
  | name :: rest => if seen.contains name then some name else firstRepeated (name :: seen) rest

def referenceFault (own : String) (seen : List String) : List String → Option VerifyError
  | [] => none
  | name :: rest =>
    if name = own then some (.selfReference name)
    else if seen.contains name then some (.duplicateReference name)
    else referenceFault own (name :: seen) rest

def registrationFault (declared seen : List String) : List String → Option VerifyError
  | [] => none
  | name :: rest =>
    if !declared.contains name then some (.unknownRegistration name)
    else if seen.contains name then some (.duplicateRegistration name)
    else registrationFault declared (name :: seen) rest

def fault (m : Module) : Option VerifyError :=
  let declared := m.types.map TypeDecl.fullName
  (m.headerFault.map VerifyError.invalidHeader)
    <|> ((firstRepeated [] declared).map VerifyError.duplicateType)
    <|> referenceFault m.identity.fullName [] m.dependencies
    <|> registrationFault declared [] (m.registrations.map Registration.typeName)

def verify (m : Module) : Except VerifyError Unit :=
  match m.fault with
  | none => .ok ()
  | some error => .error error

end Module

end Loom
