set_option autoImplicit false

namespace Loom

-- A string whose escapes name half of a surrogate pair is no text and is kept as none. Numbers are kept as they are
-- spelt.
inductive Json where
  | null
  | bool (value : Bool)
  | number (literal : List Char)
  | string (text : Option String)
  | array (items : List Json)
  | object (members : List (Option String × Json))
deriving Inhabited

namespace Json

def text (s : String) : Json := .string (some s)

def member (key : String) (value : Json) : Option String × Json := (some key, value)

def hexDigit (n : Nat) : Char := Nat.digitChar n

def escape (c : Char) : List Char :=
  if c = '\x22' then ['\\', '\x22']
  else if c = '\\' then ['\\', '\\']
  else if c = '\x08' then ['\\', 'b']
  else if c = '\x0c' then ['\\', 'f']
  else if c = '\n' then ['\\', 'n']
  else if c = '\r' then ['\\', 'r']
  else if c = '\t' then ['\\', 't']
  else if c.toNat < 0x20 then ['\\', 'u', '0', '0', hexDigit (c.toNat / 16), hexDigit (c.toNat % 16)]
  else [c]

def quote (s : String) : List Char := '\x22' :: (s.toList.flatMap escape ++ ['\x22'])

inductive Layout where
  | compact
  | pretty
deriving DecidableEq, Repr

namespace Layout

def newline (layout : Layout) (depth : Nat) : List Char :=
  match layout with
  | .compact => []
  | .pretty => '\n' :: List.replicate (2 * depth) ' '

def colon : Layout → List Char
  | .compact => [':']
  | .pretty => [':', ' ']

end Layout

mutual

def render (layout : Layout) (depth : Nat) : Json → List Char
  | .null => "null".toList
  | .bool value => if value then "true".toList else "false".toList
  | .number literal => literal
  | .string text => quote (text.getD "")
  | .array [] => ['[', ']']
  | .array (item :: items) =>
    '[' :: (layout.newline (depth + 1) ++ render layout (depth + 1) item
      ++ renderItems layout (depth + 1) items ++ layout.newline depth ++ [']'])
  | .object [] => ['\x7b', '\x7d']
  | .object ((key, value) :: members) =>
    '\x7b' :: (layout.newline (depth + 1) ++ quote (key.getD "") ++ layout.colon
      ++ render layout (depth + 1) value ++ renderMembers layout (depth + 1) members
      ++ layout.newline depth ++ ['\x7d'])

def renderItems (layout : Layout) (depth : Nat) : List Json → List Char
  | [] => []
  | item :: items =>
    ',' :: (layout.newline depth ++ render layout depth item ++ renderItems layout depth items)

def renderMembers (layout : Layout) (depth : Nat) : List (Option String × Json) → List Char
  | [] => []
  | (key, value) :: members =>
    ',' :: (layout.newline depth ++ quote (key.getD "") ++ layout.colon
      ++ render layout depth value ++ renderMembers layout depth members)

end

def toText (layout : Layout) (j : Json) : String := String.ofList (j.render layout 0)

end Json

end Loom
