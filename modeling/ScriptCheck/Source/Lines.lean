import ScriptCheck.Source.Span
import ScriptCheck.Text.Units

/-! Lines of a source text and positions in it. A line feed, a carriage return and the two together
in that order, return first, each end a line. The last line has no ending, so a text always has one
line more than it has endings. Lines and columns count from one; columns count UTF-16 code units. -/
namespace ScriptCheck

inductive LineEnd where
  | feed
  | ret
  | both
  deriving DecidableEq

def LineEnd.chars : LineEnd → List Char
  | .feed => ['\n']
  | .ret => ['\r']
  | .both => ['\r', '\n']

structure Line where
  chars : List Char
  ending : Option LineEnd
  deriving DecidableEq

structure Position where
  line : Nat
  column : Nat
  deriving DecidableEq

namespace Line

def text (l : Line) : String := String.ofList l.chars

def units (l : Line) : Nat :=
  Text.units l.chars + (l.ending.map fun e => Text.units e.chars).getD 0

def extend (c : Char) : List Line → List Line
  | [] => [⟨[c], none⟩]
  | l :: rest => ⟨c :: l.chars, l.ending⟩ :: rest

def split : List Char → List Line
  | [] => [⟨[], none⟩]
  | '\r' :: '\n' :: cs => ⟨[], some .both⟩ :: split cs
  | '\r' :: cs => ⟨[], some .ret⟩ :: split cs
  | '\n' :: cs => ⟨[], some .feed⟩ :: split cs
  | c :: cs => extend c (split cs)

/-- The position `offset` code units after the start of the first of some lines, which is line
number `line`. An offset at the start of a line belongs to that line, not to the one before. -/
def locate (line offset : Nat) : List Line → Position
  | l :: next :: rest =>
    if l.units ≤ offset then locate (line + 1) (offset - l.units) (next :: rest)
    else ⟨line, offset + 1⟩
  | _ => ⟨line, offset + 1⟩

end Line

structure Source where
  lines : List Line

namespace Source

def ofString (text : String) : Source := ⟨Line.split text.toList⟩

def units (s : Source) : Nat := (s.lines.map Line.units).foldr (· + ·) 0

def lineCount (s : Source) : Nat := s.lines.length

/-- Offsets past the end stand for the end. -/
def position (s : Source) (offset : Nat) : Position := Line.locate 1 (min offset s.units) s.lines

def lineText (s : Source) (line : Nat) : Option String :=
  if line = 0 then none else s.lines[line - 1]?.map Line.text

/-- First and last of the lines that a range touches. An empty or reversed range touches the line
of its start. -/
def linesOf (s : Source) (span : Span) : Nat × Nat :=
  ((s.position span.start.toNat).line,
   (s.position (max (span.stop.toNat - 1) span.start.toNat)).line)

end Source
end ScriptCheck
