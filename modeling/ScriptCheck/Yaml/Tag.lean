import ScriptCheck.Yaml.Block

/-! Anchors, tags and directives. A tag is a handle and a suffix; directives say what a handle
stands for. -/
namespace ScriptCheck.Yaml

def isWordChar (c : Char) : Bool := c.isAlphanum || c == '_' || c == '-'

def endsAnchor (c : Char) : Bool := c == '}' || "?:,]%@`".toList.contains c

def readAnchor (cs : List Char) : Except Fault (List Char × List Char) :=
  let (name, rest) := cs.span isWordChar
  if !name.isEmpty && (atGap rest || rest.head?.any endsAnchor) then .ok (name, rest)
  else .error .badAnchor

/-- Inside angles a tag may hold brackets and commas too. -/
def isTagChar (inAngles : Bool) (c : Char) : Bool :=
  isWordChar c || ";/?:@&=+$.!~*'()".toList.contains c || inAngles && ",[]".toList.contains c

def byte? : List Char → Option (Nat × List Char)
  | '%' :: a :: b :: cs => (hexNumber? [a, b]).map (·, cs)
  | _ => none

def leadingBits? (n : Nat) : Option (Nat × Nat) :=
  if n < 0x80 then some (0, n)
  else if 0xc0 ≤ n && n < 0xe0 then some (1, n - 0xc0)
  else if 0xe0 ≤ n && n < 0xf0 then some (2, n - 0xe0)
  else if 0xf0 ≤ n && n < 0xf8 then some (3, n - 0xf0)
  else none

def followingBytes : Nat → Nat → List Char → Option (Nat × List Char)
  | 0, code, cs => some (code, cs)
  | count + 1, code, cs => do
    let (n, cs) ← byte? cs
    if 0x80 ≤ n && n < 0xc0 then followingBytes count (code * 64 + (n - 0x80)) cs else none

def escapedChar? (cs : List Char) : Option (Char × List Char) := do
  let (first, cs) ← byte? cs
  let (count, bits) ← leadingBits? first
  let (code, cs) ← followingBytes count bits cs
  return (← charOf? code, cs)

def readTagText (inAngles : Bool) : Nat → List Char → Except Fault (List Char × List Char)
  | 0, cs => .ok ([], cs)
  | bound + 1, cs =>
    match cs with
    | [] => .ok ([], [])
    | c :: rest =>
      if c == '%' then
        match escapedChar? cs with
        | some (d, rest) => do
          let (text, rest) ← readTagText inAngles bound rest
          return (d :: text, rest)
        | none => .error .badTag
      else if isTagChar inAngles c then do
        let (text, rest) ← readTagText inAngles bound rest
        return (c :: text, rest)
      else .ok ([], cs)

def someTagText (inAngles : Bool) (cs : List Char) : Except Fault (List Char × List Char) := do
  let (text, rest) ← readTagText inAngles cs.length cs
  if text.isEmpty then .error .badTag else return (text, rest)

structure TagText where
  handle : String
  suffix : String
  deriving DecidableEq

/-- Reads a tag from behind its exclamation mark. A tag in angles has no handle, and neither has a
mark that stands alone. -/
def readTag (cs : List Char) : Except Fault (TagText × List Char) := do
  if cs.head? == some '<' then
    let (text, rest) ← someTagText true (cs.drop 1)
    if rest.head? == some '>' then return (⟨"", String.ofList text⟩, rest.drop 1)
    else .error .badTag
  else
    let (word, rest) := cs.span isWordChar
    if rest.head? == some '!' then
      let (text, rest) ← someTagText false (rest.drop 1)
      return (⟨"!" ++ String.ofList word ++ "!", String.ofList text⟩, rest)
    else
      let (text, rest) ← readTagText false rest.length rest
      let suffix := String.ofList (word ++ text)
      return (if suffix = "" then ⟨"", "!"⟩ else ⟨"!", suffix⟩, rest)

inductive Directive where
  | version (major minor : Nat)
  | tag (handle text : String)
  deriving DecidableEq

def versionDigits : Nat := 9

def readVersionNumber (cs : List Char) : Except Fault (Nat × List Char) :=
  let (digits, rest) := cs.span Char.isDigit
  if digits.isEmpty || versionDigits < digits.length then .error .badDirective
  else .ok (Json.decimalValue digits, rest)

def readVersion (cs : List Char) : Except Fault (Directive × List Char) := do
  let (major, rest) ← readVersionNumber (cs.dropWhile isSpace)
  if rest.head? == some '.' then
    let (minor, rest) ← readVersionNumber (rest.drop 1)
    return (.version major minor, rest)
  else .error .badDirective

/-- A handle is a word between exclamation marks, or a single mark. -/
def readHandle : List Char → Except Fault (List Char × List Char)
  | '!' :: cs =>
    let (word, rest) := cs.span isWordChar
    if rest.head? == some '!' then .ok ('!' :: word ++ ['!'], rest.drop 1)
    else if word.isEmpty then .ok (['!'], rest)
    else .error .badDirective
  | _ => .error .badDirective

def readTagDirective (cs : List Char) : Except Fault (Directive × List Char) := do
  let (handle, rest) ← readHandle (cs.dropWhile isSpace)
  if rest.head?.any isSpace then
    let (text, rest) ← someTagText true (rest.dropWhile isSpace)
    if atGap rest then return (.tag (String.ofList handle) (String.ofList text), rest)
    else .error .badDirective
  else .error .badDirective

def readDirective (cs : List Char) : Except Fault (Directive × List Char) := do
  let (name, rest) := cs.span isWordChar
  if !atGap rest then .error .badDirective
  let (directive, rest) ← if name = "YAML".toList then readVersion rest
    else if name = "TAG".toList then readTagDirective rest
    else .error .badDirective
  match lineEnd rest with
  | some rest => return (directive, rest)
  | none => .error .badDirective

end ScriptCheck.Yaml
