import ScriptCheck.Yaml.Tag

/-! Words of a YAML text. In block style the nesting follows from the columns: a list item or a key
that stands further right than the collection around it opens a new one, and a word further left
closes those it does not reach. Whether a value is a key shows only at the colon behind it, so the
place of each value that could be a key is remembered until its line ends. -/
namespace ScriptCheck.Yaml

inductive Token where
  | directive (d : Directive)
  | documentStart
  | documentEnd
  | blockSequence
  | blockMapping
  | blockEnd
  | openBracket
  | closeBracket
  | openBrace
  | closeBrace
  | comma
  | entry
  | key
  | value
  | alias (name : String)
  | anchor (name : String)
  | tag (t : TagText)
  | scalar (text : String) (style : Style)
  deriving DecidableEq

/-- A value that becomes a key if a colon follows on the same line. It has to become one if it
stands at the column of the mapping around it. -/
structure Candidate where
  required : Bool
  token : Nat
  place : Place

structure Scanner where
  rest : List Char
  place : Place
  tokens : List Token
  /-- One more than the column of the innermost block collection, zero outside. -/
  level : Nat
  outer : List Nat
  keyAllowed : Bool
  candidate : Option Candidate
  brackets : List (Option Candidate)

namespace Scanner

def start (cs : List Char) : Scanner := ⟨cs, ⟨0, 0, 0⟩, [], 0, [], true, none, []⟩

def inFlow (s : Scanner) : Bool := !s.brackets.isEmpty

def push (s : Scanner) (t : Token) : Scanner := { s with tokens := s.tokens ++ [t] }

def insert (s : Scanner) (i : Nat) (t : Token) : Scanner :=
  { s with tokens := s.tokens.take i ++ t :: s.tokens.drop i }

/-- Passes blanks, comments and line breaks. A tab may not stand where a key could begin. A byte
order mark at the begin of a line is a blank and takes a column like any other. -/
def skipGap (flow : Bool) : List Char → Place → Bool → Bool → List Char × Place × Bool
  | [], place, allowed, _ => ([], place, allowed)
  | '\r' :: '\n' :: cs, place, allowed, _ =>
    skipGap flow cs (place.nextLine 2) (allowed || !flow) false
  | c :: cs, place, allowed, comment =>
    if isBreak c then skipGap flow cs (place.nextLine 1) (allowed || !flow) false
    else if comment || c == ' ' || (c == '\t' && (flow || !allowed)) ||
        (c == '\ufeff' && place.column == 0) then
      skipGap flow cs place.next allowed comment
    else if c == '#' then skipGap flow cs place.next allowed true
    else (c :: cs, place, allowed)

def toNextToken (s : Scanner) : Scanner :=
  let (rest, place, keyAllowed) := skipGap s.inFlow s.rest s.place s.keyAllowed false
  { s with rest, place, keyAllowed }

/-- A key and its colon stand on one line and close together. -/
def isStale (k : Candidate) (place : Place) : Bool :=
  k.place.line < place.line || k.place.index + 1024 < place.index

def keepFresh (place : Place) (k : Option Candidate) : Except Fault (Option Candidate) :=
  match k with
  | some k =>
    if isStale k place then if k.required then .error .missingColon else .ok none
    else .ok (some k)
  | none => .ok none

def dropStale (s : Scanner) : Except Fault Scanner := do
  let candidate ← keepFresh s.place s.candidate
  let brackets ← s.brackets.mapM (keepFresh s.place)
  return { s with candidate, brackets }

def closeBlocks (column : Nat) : Nat → List Nat → List Token → Nat × List Nat × List Token
  | level, [], tokens => (level, [], tokens)
  | level, l :: outer, tokens =>
    if column + 1 < level then closeBlocks column l outer (tokens ++ [.blockEnd])
    else (level, l :: outer, tokens)

def unindent (s : Scanner) : Scanner :=
  if s.inFlow then s
  else
    let (level, outer, tokens) := closeBlocks s.place.column s.level s.outer s.tokens
    { s with level, outer, tokens }

def closeAll (s : Scanner) : Scanner :=
  if s.inFlow then s
  else
    let opened := (s.level :: s.outer).filter (· ≠ 0)
    { s with level := 0, outer := [], tokens := s.tokens ++ opened.map fun _ => .blockEnd }

def indent (s : Scanner) (column : Nat) (i : Nat) (t : Token) : Scanner :=
  if s.inFlow || column + 1 ≤ s.level then s
  else { s.insert i t with level := column + 1, outer := s.level :: s.outer }

def dropCandidate (s : Scanner) : Except Fault Scanner :=
  match s.candidate with
  | some k => if k.required then .error .missingColon else .ok { s with candidate := none }
  | none => .ok s

def saveCandidate (s : Scanner) : Except Fault Scanner :=
  if s.keyAllowed then do
    let required := !s.inFlow && s.level == s.place.column + 1
    let s' ← s.dropCandidate
    return { s' with candidate := some ⟨required, s.tokens.length, s.place⟩ }
  else .ok s

def mark (s : Scanner) (t : Token) : Scanner :=
  { s.push t with rest := s.rest.drop 1, place := s.place.next }

def openFlow (s : Scanner) (t : Token) : Except Fault Scanner := do
  let s ← s.saveCandidate
  return { s.mark t with
    candidate := none, brackets := s.candidate :: s.brackets, keyAllowed := true }

def closeFlow (s : Scanner) (t : Token) : Except Fault Scanner := do
  let s ← s.dropCandidate
  let s := { s.mark t with keyAllowed := false }
  match s.brackets with
  | outer :: brackets => return { s with candidate := outer, brackets }
  | [] => return s

def comma (s : Scanner) : Except Fault Scanner := do
  return { (← s.dropCandidate).mark .comma with keyAllowed := true }

def entry (s : Scanner) : Except Fault Scanner := do
  if !s.inFlow && !s.keyAllowed then .error .misplacedEntry
  let s ← (s.indent s.place.column s.tokens.length .blockSequence).dropCandidate
  return { s.mark .entry with keyAllowed := true }

def key (s : Scanner) : Except Fault Scanner := do
  if !s.inFlow && !s.keyAllowed then .error .misplacedKey
  let s ← (s.indent s.place.column s.tokens.length .blockMapping).dropCandidate
  return { s.mark .key with keyAllowed := !s.inFlow }

/-- A colon. The value before it is its key if that could be one. -/
def value (s : Scanner) : Except Fault Scanner :=
  match s.candidate with
  | some k =>
    let s := (s.insert k.token .key).indent k.place.column k.token .blockMapping
    .ok { s.mark .value with candidate := none, keyAllowed := false }
  | none =>
    if !s.inFlow && !s.keyAllowed then .error .misplacedValue
    else
      let s := s.indent s.place.column s.tokens.length .blockMapping
      .ok { s.mark .value with keyAllowed := !s.inFlow }

def scalar (s : Scanner) (style : Style)
    (read : List Char → Place → Except Fault Scanned) : Except Fault Scanner := do
  let r ← read s.rest s.place
  return { s.push (.scalar (String.ofList r.text) style) with
    rest := r.rest, place := r.place, keyAllowed := r.newLine }

def quoted (s : Scanner) (style : Style) (quote : Char) : Except Fault Scanner := do
  (← s.saveCandidate).scalar style fun cs place =>
    readQuoted quote (cs.length + 1) (cs.drop 1) place.next [] .none

def plain (s : Scanner) : Except Fault Scanner := do
  (← s.saveCandidate).scalar .plain fun cs place => readPlain s.inFlow s.level cs place [] .none

def block (s : Scanner) (style : Style) : Except Fault Scanner := do
  (← s.dropCandidate).scalar style fun cs place =>
    readBlock (style == .folded) s.level (cs.drop 1) place.next

def property (s : Scanner) (t : Token) (rest : List Char) : Scanner :=
  { s.push t with
    rest, place := s.place.skip (s.rest.length - rest.length), keyAllowed := false }

def anchor (s : Scanner) (make : String → Token) : Except Fault Scanner := do
  let s ← s.saveCandidate
  let (name, rest) ← readAnchor (s.rest.drop 1)
  return s.property (make (String.ofList name)) rest

def tag (s : Scanner) : Except Fault Scanner := do
  let s ← s.saveCandidate
  let (t, rest) ← readTag (s.rest.drop 1)
  if atGap rest || (s.inFlow && rest.head? == some ',') then return s.property (.tag t) rest
  else .error .badTag

def directive (s : Scanner) : Except Fault Scanner := do
  let s ← s.closeAll.dropCandidate
  let (d, rest) ← readDirective (s.rest.drop 1)
  let (_, rest, place) := takeBreak rest (s.place.skip (s.rest.length - rest.length))
  return { s.push (.directive d) with rest, place, keyAllowed := false }

def documentMark (s : Scanner) (t : Token) : Except Fault Scanner := do
  let s ← s.closeAll.dropCandidate
  return { s.push t with rest := s.rest.drop 3, place := s.place.skip 3, keyAllowed := false }

def isIndicator (c : Char) : Bool := "-?:,[]{}#&*!|>'\"%@`".toList.contains c

def next (s : Scanner) (c : Char) (after : List Char) : Except Fault Scanner :=
  if s.place.column == 0 && c == '%' then s.directive
  else if s.place.column == 0 && isDocumentMark (c :: after) then
    s.documentMark (if c == '-' then .documentStart else .documentEnd)
  else if c == '[' then s.openFlow .openBracket
  else if c == '{' then s.openFlow .openBrace
  else if c == ']' then s.closeFlow .closeBracket
  else if c == '}' then s.closeFlow .closeBrace
  else if c == ',' then s.comma
  else if c == '-' && atGap after then s.entry
  else if c == '?' && (s.inFlow || atGap after) then s.key
  else if c == ':' && (s.inFlow || atGap after) then s.value
  else if c == '*' then s.anchor .alias
  else if c == '&' then s.anchor .anchor
  else if c == '!' then s.tag
  else if c == '|' && !s.inFlow then s.block .literal
  else if c == '>' && !s.inFlow then s.block .folded
  else if c == '\'' then s.quoted .single c
  else if c == '"' then s.quoted .double c
  else if !(isIndicator c || isSpace c) || c == '-' || (!s.inFlow && (c == '?' || c == ':')) then
    s.plain
  else .error (.unexpectedCharacter c)

/-- Every word takes at least one character, so the number of characters bounds the words. -/
def run : Nat → Scanner → Except Fault (List Token)
  | 0, _ => .error .expectedContent
  | bound + 1, s => do
    let s := (← s.toNextToken.dropStale).unindent
    match s.rest with
    | [] => return (← s.closeAll.dropCandidate).tokens
    | c :: after => run bound (← s.next c after)

end Scanner

def isAllowed (c : Char) : Bool :=
  let n := c.toNat
  n == 9 || n == 10 || n == 13 || (0x20 ≤ n && n ≤ 0x7e) || n == 0x85 ||
  (0xa0 ≤ n && n ≤ 0xfffd) || 0x10000 ≤ n

def scan (text : String) : Except Fault (List Token) :=
  let cs := text.toList
  if cs.all isAllowed then (Scanner.start cs).run (cs.length + 1) else .error .controlCharacter

end ScriptCheck.Yaml
