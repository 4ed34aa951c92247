set_option autoImplicit false

namespace Loom.Pattern

structure Span where
  start : Nat
  stop : Nat
deriving DecidableEq, Repr, Inhabited

namespace Span

def between (first last : List Char) : Span := ⟨first.length, last.length⟩

def place (cs : List Char) : Span := ⟨cs.length, cs.length⟩

def next (cs : List Char) : Span := ⟨cs.length, cs.tail.length⟩

def through (a b : Span) : Span := ⟨a.start, b.stop⟩

end Span

inductive Cause where
  | classEscape
  | classRange
  | classBoundary
  | classUnclosed
  | decimalEmpty
  | decimalInvalid
  | hexEmpty
  | hexInvalid
  | hexDigit
  | escapeUnfinished
  | escapeUnknown
  | flagNegationDangling
  | flagTwice
  | flagNegationTwice
  | flagUnfinished
  | flagUnknown
  | groupNameTwice
  | groupNameEmpty
  | groupNameInvalid
  | groupNameUnfinished
  | groupUnclosed
  | groupUnopened
  | nestedTooDeep
  | countInvalid
  | countUnclosed
  | repetitionMissing
  | boundaryUnclosed
  | boundaryUnknown
  | boundaryUnfinished
  | propertyInvalid
  | backreference
  | lookAround
  | unicodeNotAllowed
  | invalidUtf8
  | propertyUnknown
  | propertyValueUnknown
  | unicodeClass
  | unicodeCase
deriving DecidableEq, Repr

def maxNesting : Nat := 250

def Cause.message : Cause → String
  | .classEscape => "invalid escape sequence found in character class"
  | .classRange => "invalid character class range, the start must be <= the end"
  | .classBoundary => "invalid range boundary, must be a literal"
  | .classUnclosed => "unclosed character class"
  | .decimalEmpty => "repetition quantifier expects a valid decimal"
  | .decimalInvalid => "decimal literal invalid"
  | .hexEmpty => "hexadecimal literal empty"
  | .hexInvalid => "hexadecimal literal is not a Unicode scalar value"
  | .hexDigit => "invalid hexadecimal digit"
  | .escapeUnfinished => "incomplete escape sequence, reached end of pattern prematurely"
  | .escapeUnknown => "unrecognized escape sequence"
  | .flagNegationDangling => "dangling flag negation operator"
  | .flagTwice => "duplicate flag"
  | .flagNegationTwice => "flag negation operator repeated"
  | .flagUnfinished => "expected flag but got end of regex"
  | .flagUnknown => "unrecognized flag"
  | .groupNameTwice => "duplicate capture group name"
  | .groupNameEmpty => "empty capture group name"
  | .groupNameInvalid => "invalid capture group character"
  | .groupNameUnfinished => "unclosed capture group name"
  | .groupUnclosed => "unclosed group"
  | .groupUnopened => "unopened group"
  | .nestedTooDeep => s!"exceed the maximum number of nested parentheses/brackets ({maxNesting})"
  | .countInvalid => "invalid repetition count range, the start must be <= the end"
  | .countUnclosed => "unclosed counted repetition"
  | .repetitionMissing => "repetition operator missing expression"
  | .boundaryUnclosed =>
    "special word boundary assertion is either unclosed or contains an invalid character"
  | .boundaryUnknown =>
    "unrecognized special word boundary assertion, valid choices are: start, end, start-half or end-half"
  | .boundaryUnfinished =>
    "found either the beginning of a special word boundary or a bounded repetition on a \\b with an opening brace, but no closing brace"
  | .propertyInvalid => "invalid Unicode character class"
  | .backreference => "backreferences are not supported"
  | .lookAround => "look-around, including look-ahead and look-behind, is not supported"
  | .unicodeNotAllowed => "Unicode not allowed here"
  | .invalidUtf8 => "pattern can match invalid UTF-8"
  | .propertyUnknown => "Unicode property not found"
  | .propertyValueUnknown => "Unicode property value not found"
  | .unicodeClass =>
    "Unicode-aware Perl class not found (make sure the unicode-perl feature is enabled)"
  | .unicodeCase =>
    "Unicode-aware case insensitivity matching is not available (make sure the unicode-case feature is enabled)"

structure Fault where
  cause : Cause
  span : Span
  earlier : Option Span
deriving DecidableEq, Repr

structure Position where
  line : Nat
  column : Nat
deriving DecidableEq, Repr

def Position.behind (cs : List Char) : Position :=
  ⟨cs.count '\n' + 1, (cs.reverse.takeWhile (· ≠ '\n')).length + 1⟩

namespace Fault

def bounds (pattern : List Char) (s : Span) : Position × Position :=
  (Position.behind (pattern.take (pattern.length - s.start)),
    Position.behind (pattern.take (pattern.length - s.stop)))

def lines (text : List Char) : List (List Char) :=
  match text.splitOn '\n' with
  | [] => []
  | pieces =>
    let whole := pieces.dropLast.map fun line =>
      if line.getLast? = some '\r' then line.dropLast else line
    whole ++ (pieces.getLast?.toList.filter (· ≠ []))

def spans (f : Fault) : List Span :=
  match f.earlier with
  | none => [f.span]
  | some earlier => [f.span, earlier].mergeSort fun a b => b.start ≤ a.start

def carets (marks : List (Position × Position)) : List Char :=
  marks.foldl (fun notes (first, last) =>
    notes ++ List.replicate (first.column - 1 - notes.length) ' '
      ++ List.replicate (max 1 (last.column - first.column)) '^') []

def padLeft (width : Nat) (text : List Char) : List Char :=
  List.replicate (width - text.length) ' ' ++ text

def shown (f : Fault) (pattern : List Char) : List Char :=
  let all := lines pattern
  let count := all.length + (if pattern.getLast? = some '\n' then 1 else 0)
  let width := (Nat.toDigits 10 count).length
  let marks := (f.spans.map (bounds pattern)).filter fun m => m.1.line = m.2.line
  (all.zipIdx 1).flatMap fun (line, number) =>
    let here := marks.filter fun m => m.1.line = number
    let front := if count ≤ 1 then "    ".toList
      else padLeft width (Nat.toDigits 10 number) ++ [':', ' ']
    front ++ line ++ ['\n']
      ++ (if here = [] then [] else List.replicate front.length ' ' ++ carets here ++ ['\n'])

def longNotes (f : Fault) (pattern : List Char) : List String :=
  ((f.spans.map (bounds pattern)).filter fun m => m.1.line ≠ m.2.line).map fun (first, last) =>
    s!"on line {first.line} (column {first.column}) through line {last.line} (column {last.column - 1})"

def describe (f : Fault) (pattern : List Char) : String :=
  let shown := String.ofList (f.shown pattern)
  if pattern.contains '\n' then
    let divider := String.ofList (List.replicate 79 '~') ++ "\n"
    let notes := f.longNotes pattern
    "regex parse error:\n" ++ divider ++ shown ++ divider
      ++ (if notes = [] then "" else "\n".intercalate notes ++ "\n")
      ++ "error: " ++ f.cause.message
  else "regex parse error:\n" ++ shown ++ "error: " ++ f.cause.message

end Fault

end Loom.Pattern
