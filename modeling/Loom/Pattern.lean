import Loom.Pattern.Meaning
import Loom.Pattern.Parser

set_option autoImplicit false

namespace Loom

structure Pattern where
  expression : Pattern.Expression
deriving DecidableEq, Repr

namespace Pattern

inductive Refusal where
  | fault (value : Fault)
  -- The words of all scripts are asked for, of which only those of ASCII are known.
  | words
  | size
deriving DecidableEq, Repr

def maxSize : Nat := 10 * 1024 * 1024

def ofList (pattern : List Char) : Except Refusal Pattern := do
  let (expression, _) ← ((Tree.ofPattern pattern).bind (·.meaning Mode.initial)).mapError .fault
  if expression.asksAnyScript then .error .words
  else if maxSize < expression.size then .error .size
  else .ok ⟨expression⟩

def Refusal.message (refusal : Refusal) (pattern : List Char) : String :=
  match refusal with
  | .fault value => value.describe pattern
  | .words => "error building NFA"
  | .size => s!"Compiled regex exceeds size limit of {maxSize} bytes."

def occursIn (pattern : Pattern) (text : String) : Bool :=
  pattern.expression.fits text.toList.toArray

end Pattern

end Loom
