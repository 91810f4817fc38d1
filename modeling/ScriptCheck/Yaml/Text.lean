import ScriptCheck.Yaml.Number
import ScriptCheck.Yaml.Scalar

/-! Writing text as a YAML scalar, so that it is read back as text. Plain text is preferred; text
that YAML would take for something else, or that holds marks, goes in single quotes, and in double
quotes if it holds characters that need an escape. Text of several lines is written line by line. -/
namespace ScriptCheck.Yaml

/-- YAML would not read the bare word as text, or not every version would. -/
def looksTyped (s : String) : Bool :=
  isNullWord s || (boolWord? s).isSome || isSpecialNumber s || isPaddedDigits s.toList ||
  isRadixNumber s.toList || isDecimal s.toList

def isPrintable (c : Char) : Bool :=
  let n := c.toNat
  n == 10 || (0x20 ≤ n && n ≤ 0x7e) || (0xa0 ≤ n && n ≠ 0xfeff && n ≠ 0xfffe && n ≠ 0xffff)

/-- A mark behind the first character that plain text cannot hold: a colon before white space, or a
hash behind it. -/
def hasInnerMark : List Char → Bool
  | [] | [_] => false
  | a :: b :: rest =>
    (b == ':' && atGap rest) || (b == '#' && (isSpace a || isBreak a)) || hasInnerMark (b :: rest)

def startsWithMark : List Char → Bool
  | '-' :: '-' :: '-' :: _ | '.' :: '.' :: '.' :: _ => true
  | c :: rest =>
    "#,[]{}&*!|>'\"%@`".toList.contains c ||
      ((c == '?' || c == ':' || c == '-') && atGap rest)
  | [] => false

def startsWith (p : Char → Bool) (cs : List Char) : Bool := cs.head?.any p

def hasPair (p q : Char → Bool) : List Char → Bool
  | [] => false
  | a :: rest => (p a && startsWith q rest) || hasPair p q rest

def isBlankSpace (c : Char) : Bool := c == ' '

def needsEscapes (cs : List Char) : Bool :=
  !cs.all isPrintable || hasPair isBlankSpace isBreak cs

def singleOrDouble (cs : List Char) : Style :=
  if needsEscapes cs || hasPair isBreak isBlankSpace cs then .double else .single

def styleOf (s : String) : Style :=
  let cs := s.toList
  if cs.contains '\n' then
    if needsEscapes cs || cs.getLast? == some ' ' then .double else .literal
  else if looksTyped s || startsWithMark cs || hasInnerMark cs || cs.any isBreak ||
      startsWith isBlankSpace cs || cs.getLast? == some ' ' || needsEscapes cs then
    singleOrDouble cs
  else .plain

def letterOf? (c : Char) : Option Char :=
  ("0abtnvfre\"\\N_LP".toList).find? fun e => letterEscape? e == some c

def hexText : Nat → Nat → List Char
  | 0, _ => []
  | width + 1, n => hexText width (n / 16) ++ [(Nat.digitChar (n % 16)).toUpper]

def escaped (c : Char) : List Char :=
  if isPrintable c && !isBreak c && c ≠ '"' && c ≠ '\\' then [c]
  else match letterOf? c with
  | some e => ['\\', e]
  | none =>
    let n := c.toNat
    if n ≤ 0xff then '\\' :: 'x' :: hexText 2 n
    else if n ≤ 0xffff then '\\' :: 'u' :: hexText 4 n
    else '\\' :: 'U' :: hexText 8 n

def doubleQuoted (cs : List Char) : List Char := '"' :: cs.flatMap escaped ++ ['"']

def indentLines (margin : Nat) : Bool → List Char → List Char
  | _, [] => []
  | lineStart, c :: cs =>
    if isBreak c then c :: indentLines margin true cs
    else if lineStart then List.replicate margin ' ' ++ c :: indentLines margin false cs
    else c :: indentLines margin false cs

/-- Text in single quotes, a quote in it written twice. Behind a line break the text goes on at
column `margin`, and so does the closing quote. -/
def singleQuoted (margin : Nat) (cs : List Char) : List Char :=
  let doubled := cs.flatMap fun c => if c == '\'' then ['\'', '\''] else [c]
  '\'' :: indentLines margin false (doubled ++ ['\''])

/-- The marks behind the bar: the margin if the text itself begins with white space, and how its end
is to be read. -/
def lineMarks (cs : List Char) : List Char :=
  let margin := if startsWith (fun c => c == ' ' || isBreak c) cs then ['2'] else []
  let ending := match cs.reverse with
    | a :: b :: _ => if !isBreak a then ['-'] else if isBreak b then ['+'] else []
    | [a] => if isBreak a then ['+'] else ['-']
    | [] => ['-']
  margin ++ ending

def writeText (margin : Nat) (s : String) : String :=
  let cs := s.toList
  match styleOf s with
  | .plain => s
  | .single => String.ofList (singleQuoted margin cs)
  | .double => String.ofList (doubleQuoted cs)
  | .literal | .folded =>
    let body := indentLines margin true cs
    let body := if cs.getLast?.any isBreak then body.dropLast else body
    "|" ++ String.ofList (lineMarks cs) ++ "\n" ++ String.ofList body

/-- A long key, or one of several lines, is announced by a question mark. -/
def isShortKey (s : String) : Bool := !s.toList.any isBreak && s.utf8ByteSize ≤ 128

def writeEntry (margin : Nat) (key value : String) : String :=
  let blanks := String.ofList (List.replicate margin ' ')
  if isShortKey key then
    blanks ++ writeText (margin + 2) key ++ ": " ++ writeText (margin + 2) value ++ "\n"
  else
    blanks ++ "? " ++ writeText (margin + 2) key ++ "\n" ++
    blanks ++ ": " ++ writeText (margin + 2) value ++ "\n"

def writeItem (item : String) : String := "- " ++ writeText 2 item ++ "\n"

end ScriptCheck.Yaml
