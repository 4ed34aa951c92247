set_option autoImplicit false

namespace Loom.CommandLine

inductive Color where
  | green
  | yellow
  | cyan
  | white
deriving DecidableEq, Repr

def Color.code : Color → Char
  | .green => '2'
  | .yellow => '3'
  | .cyan => '6'
  | .white => '7'

inductive Piece where
  | plain (text : String)
  | styled (text : String) (color : Option Color) (bold : Bool)
deriving DecidableEq, Repr

namespace Piece

def success (text : String) : Piece := .styled text (some .green) true

def warning (text : String) : Piece := .styled text (some .yellow) true

def info (text : String) : Piece := .styled text (some .cyan) false

def dim (text : String) : Piece := .styled text (some .white) false

def bold (text : String) : Piece := .styled text none true

def newline : Piece := .plain "\n"

def resetCode : String := "\x1b[0m"

def boldCode : String := "\x1b[1m"

def colorCode (color : Color) : String := "\x1b[3" ++ color.code.toString ++ "m"

def render (colored : Bool) : Piece → String
  | .plain text => text
  | .styled text color bold =>
    if colored then
      resetCode ++ (if bold then boldCode else "") ++ (color.map colorCode).getD "" ++ text ++ resetCode
    else text

end Piece

abbrev Environment := List (String × String)

def isColored (env : Environment) (asked : Option String) : Bool :=
  if (env.lookup "NO_COLOR").isSome then false
  else
    match asked with
    | some "always" => true
    | some "never" => false
    | _ =>
      match env.lookup "TERM" with
      | some terminal => terminal ≠ "dumb"
      | none => false

end Loom.CommandLine
