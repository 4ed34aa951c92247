import Loom.Json.Parser

set_option autoImplicit false

/-! A record is an object, whose unknown keys are skipped, or an array of its fields in their order. -/
namespace Loom.Json

def text? : Json → Option String
  | .string text => text
  | _ => none

def word? : Json → Option UInt32
  | .number literal =>
    if literal.all isDigit then
      let n := literal.foldl (fun n c => n * 10 + (c.toNat - '0'.toNat)) 0
      if n < UInt32.size then some (UInt32.ofNat n) else none
    else none
  | _ => none

def optional? {α : Type} (read : Json → Option α) : Option Json → Option (Option α)
  | none => some none
  | some .null => some none
  | some j => (read j).map some

def list? {α : Type} (read : Json → Option α) : Json → Option (List α)
  | .array items => items.mapM read
  | _ => none

def listOrEmpty? {α : Type} (read : Json → Option α) : Option Json → Option (List α)
  | none => some []
  | some j => list? read j

def unique? (key : String) (members : List (Option String × Json)) : Option (Option Json) :=
  match members.filter (·.1 = some key) with
  | [] => some none
  | [(_, value)] => some (some value)
  | _ => none

def fields? (keys : List String) : Json → Option (List (Option Json))
  | .object members =>
    if members.all (·.1.isSome) then keys.mapM fun key => unique? key members else none
  | .array items =>
    if items.length ≤ keys.length then
      some (items.map some ++ List.replicate (keys.length - items.length) none)
    else none
  | _ => none

end Loom.Json
