import ScriptCheck.Json.Reader

/-! The scalars of YAML that stand in line: plain text, and text in single or double quotes. Such a
scalar may run over several lines. The blanks around a line break are dropped, a single break is
read as a blank, and of several breaks all but the first are kept. -/
namespace ScriptCheck.Yaml

inductive Fault where
  | controlCharacter
  | unexpectedCharacter (c : Char)
  | tabIndentation
  | openQuote
  | unknownEscape
  | badHeader
  | badAnchor
  | badTag
  | badDirective
  | undefinedAnchor (name : String)
  | undefinedHandle (handle : String)
  | misplacedColon
  | missingColon
  | misplacedEntry
  | misplacedKey
  | misplacedValue
  | expectedContent
  | expectedKey
  | expectedEntry
  | expectedComma
  | secondDocument
  deriving DecidableEq

def Fault.message : Fault → String
  | .controlCharacter => "control characters are not allowed"
  | .unexpectedCharacter c => "the character '" ++ c.toString ++ "' cannot start a value"
  | .tabIndentation => "a tab stands where the indentation is"
  | .openQuote => "a quoted text has no end"
  | .unknownEscape => "unknown escape in a quoted text"
  | .badHeader => "unexpected mark behind a bar"
  | .badAnchor => "an anchor has no name"
  | .badTag => "malformed tag"
  | .badDirective => "malformed directive"
  | .undefinedAnchor name => "unknown anchor '" ++ name ++ "'"
  | .undefinedHandle handle => "undefined tag handle '" ++ handle ++ "'"
  | .misplacedColon => "unexpected ':'"
  | .missingColon => "could not find expected ':'"
  | .misplacedEntry => "list items are not allowed here"
  | .misplacedKey => "mapping keys are not allowed here"
  | .misplacedValue => "mapping values are not allowed here"
  | .expectedContent => "expected a value"
  | .expectedKey => "expected a key"
  | .expectedEntry => "expected '-'"
  | .expectedComma => "expected ',' or a closing bracket"
  | .secondDocument => "more than one document"

inductive Style where
  | plain
  | single
  | double
  | literal
  | folded
  deriving DecidableEq

def isNullWord (s : String) : Bool := ["", "~", "null", "Null", "NULL"].contains s

def boolWord? (s : String) : Option Bool :=
  if ["true", "True", "TRUE"].contains s then some true
  else if ["false", "False", "FALSE"].contains s then some false
  else none

/-- How far the text has been read: line and column from zero, and the characters in all. -/
structure Place where
  line : Nat
  column : Nat
  index : Nat

def Place.skip (p : Place) (size : Nat) : Place := ⟨p.line, p.column + size, p.index + size⟩
def Place.next (p : Place) : Place := p.skip 1
def Place.nextLine (p : Place) (size : Nat) : Place := ⟨p.line + 1, 0, p.index + size⟩

def isSpace (c : Char) : Bool := c == ' ' || c == '\t'

def isBreak (c : Char) : Bool :=
  c == '\n' || c == '\r' || c == '\x85' || c == '\u2028' || c == '\u2029'

def keptBreak (c : Char) : Char := if c == '\u2028' || c == '\u2029' then c else '\n'

def atGap : List Char → Bool
  | [] => true
  | c :: _ => isSpace c || isBreak c

def isDocumentMark : List Char → Bool
  | '-' :: '-' :: '-' :: rest | '.' :: '.' :: '.' :: rest => atGap rest
  | _ => false

/-- White space inside a scalar: blanks on one line, or a run of line breaks. An escaped line break
opens a run without a first break. -/
inductive Gap where
  | blanks (cs : List Char)
  | lines (first : Option Char) (more : List Char)

namespace Gap

def none : Gap := .blanks []

def isNone : Gap → Bool
  | .blanks [] => true
  | _ => false

def hasBreak : Gap → Bool
  | .blanks _ => false
  | .lines .. => true

def addSpace (c : Char) : Gap → Gap
  | .blanks cs => .blanks (cs ++ [c])
  | .lines first more => .lines first more

def addBreak (c : Char) : Gap → Gap
  | .blanks _ => .lines (some c) []
  | .lines first more => .lines first (more ++ [c])

def text : Gap → List Char
  | .blanks cs => cs
  | .lines (some '\n') [] => [' ']
  | .lines (some '\n') more => more
  | .lines (some c) more => c :: more
  | .lines Option.none more => more

end Gap

structure Scanned where
  text : List Char
  rest : List Char
  place : Place
  /-- White space with a line break was passed behind the scalar. -/
  newLine : Bool

def isFlowMark (c : Char) : Bool := ",[]{}".toList.contains c

def beforeFlowMark : List Char → Bool
  | c :: _ => isFlowMark c || c == '?'
  | [] => false

/-- Reads plain text, which ends before a colon that white space follows, before a comment, before a
line that is indented less than `level` and, inside brackets, before a bracket or comma. -/
def readPlain (flow : Bool) (level : Nat) :
    List Char → Place → List Char → Gap → Except Fault Scanned
  | [], place, text, gap => .ok ⟨text, [], place, gap.hasBreak⟩
  | '\r' :: '\n' :: cs, place, text, gap =>
    readPlain flow level cs (place.nextLine 2) text (gap.addBreak '\n')
  | c :: cs, place, text, gap =>
    if isSpace c then
      if gap.hasBreak && c == '\t' && place.column < level then .error .tabIndentation
      else readPlain flow level cs place.next text (gap.addSpace c)
    else if isBreak c then
      readPlain flow level cs (place.nextLine 1) text (gap.addBreak (keptBreak c))
    else
      let ended : Except Fault Scanned := .ok ⟨text, c :: cs, place, gap.hasBreak⟩
      let offSide := !flow && place.column < level
      let mark := place.column == 0 && isDocumentMark (c :: cs)
      if !gap.isNone && (offSide || mark || c == '#') then ended
      else if flow && c == ':' && beforeFlowMark cs then .error .misplacedColon
      else if c == ':' && atGap cs then ended
      else if flow && isFlowMark c then ended
      else readPlain flow level cs place.next (text ++ gap.text ++ [c]) .none

def letterEscape? : Char → Option Char
  | '0' => some '\x00'
  | 'a' => some '\x07'
  | 'b' => some '\x08'
  | 't' | '\t' => some '\t'
  | 'n' => some '\n'
  | 'v' => some '\x0b'
  | 'f' => some '\x0c'
  | 'r' => some '\r'
  | 'e' => some '\x1b'
  | ' ' => some ' '
  | '"' => some '"'
  | '/' => some '/'
  | '\\' => some '\\'
  | 'N' => some '\x85'
  | '_' => some '\xa0'
  | 'L' => some '\u2028'
  | 'P' => some '\u2029'
  | _ => none

def hexLength? : Char → Option Nat
  | 'x' => some 2
  | 'u' => some 4
  | 'U' => some 8
  | _ => none

def hexNumber? (digits : List Char) : Option Nat :=
  digits.foldlM (fun n c => return n * 16 + (← Json.hexValue? c)) 0

def charOf? (n : Nat) : Option Char := if n.isValidChar then some (Char.ofNat n) else none

def readQuoted (quote : Char) : Nat → List Char → Place → List Char → Gap → Except Fault Scanned
  | 0, _, _, _, _ => .error .openQuote
  | bound + 1, cs, place, text, gap =>
    if place.column == 0 && isDocumentMark cs then .error .openQuote
    else match cs with
    | [] => .error .openQuote
    | '\r' :: '\n' :: cs =>
      readQuoted quote bound cs (place.nextLine 2) text (gap.addBreak '\n')
    | c :: cs =>
      if isSpace c then readQuoted quote bound cs place.next text (gap.addSpace c)
      else if isBreak c then
        readQuoted quote bound cs (place.nextLine 1) text (gap.addBreak (keptBreak c))
      else
        let text := text ++ gap.text
        if c == quote then
          match quote, cs with
          | '\'', '\'' :: cs =>
            readQuoted quote bound cs place.next.next (text ++ ['\'']) .none
          | _, cs => .ok ⟨text, cs, place.next, false⟩
        else if quote == '"' && c == '\\' then
          match cs with
          | [] => .error .unknownEscape
          | '\r' :: '\n' :: cs =>
            readQuoted quote bound cs (place.nextLine 3) text (.lines none [])
          | e :: cs =>
            if isBreak e then readQuoted quote bound cs (place.nextLine 2) text (.lines none [])
            else match letterEscape? e, hexLength? e with
            | some d, _ => readQuoted quote bound cs place.next.next (text ++ [d]) .none
            | none, some n =>
              match hexNumber? (cs.take n) >>= charOf? with
              | some d =>
                if cs.length < n then .error .unknownEscape
                else readQuoted quote bound (cs.drop n) (place.skip (2 + n)) (text ++ [d]) .none
              | none => .error .unknownEscape
            | none, none => .error .unknownEscape
        else readQuoted quote bound cs place.next (text ++ [c]) .none

end ScriptCheck.Yaml
