import ScriptCheck.Diagnostic.Basic
import ScriptCheck.Source.Lines

/-! A message over its source: a heading, then every line that its range touches with the line's
number in front. Coloured output marks the heading and the numbers with terminal escapes. -/
namespace ScriptCheck.Rendering

def red : String := "\x1b[91m"
def blue : String := "\x1b[94m"
def reset : String := "\x1b[0m"

def paint (coloured : Bool) (colour text : String) : String :=
  if coloured then colour ++ text ++ reset else text

def heading (coloured : Bool) (message : String) : String :=
  paint coloured red "ERROR:" ++ " " ++ message ++ "\n\n"

def row (coloured : Bool) (source : Source) (line : Nat) : String :=
  "  " ++ paint coloured blue (toString line) ++ ": " ++ (source.lineText line).getD "" ++ "\n"

def lineNumbers (first last : Nat) : List Nat := List.range' first (last + 1 - first)

def render (coloured : Bool) (source : Source) (message : String) (location : Span) : String :=
  let (first, last) := source.linesOf location
  heading coloured message ++ String.join ((lineNumbers first last).map (row coloured source))

end ScriptCheck.Rendering
