import ScriptCheck.Json.Basic

/-! Reading JSON front to back. The first fault ends the reading, so which fault is found depends on
the order of the text alone. Whoever turns values into something else while the text is being read
can refuse a value; the type of such refusals is a parameter. -/
namespace ScriptCheck.Json

inductive Fault (ε : Type) where
  | malformed
  | ended
  | refused (cause : ε)
  deriving DecidableEq

abbrev Reader (ε α : Type) := List Char → Except (Fault ε) (α × List Char)

variable {ε : Type}

def isSpace (c : Char) : Bool := c == ' ' || c == '\n' || c == '\t' || c == '\r'

def skipSpace (cs : List Char) : List Char := cs.dropWhile isSpace

def keyword : List Char → List Char → Except (Fault ε) (List Char)
  | [], cs => .ok cs
  | _ :: _, [] => .error .ended
  | k :: ks, c :: cs => if k = c then keyword ks cs else .error .malformed

/-! Numbers -/

def digitValue (c : Char) : Nat := c.toNat - '0'.toNat

/-- Appends digits as long as the value stays below 2^64; also gives how many were left over. -/
def appendDigits (value : Nat) : List Char → Nat × Nat
  | [] => (value, 0)
  | d :: ds =>
    let longer := value * 10 + digitValue d
    if longer < twoTo 64 then appendDigits longer ds else (value, ds.length + 1)

def decimalValue (ds : List Char) : Nat := ds.foldl (fun n d => n * 10 + digitValue d) 0

structure NumberText where
  negative : Bool
  whole : List Char
  fraction : Option (List Char)
  exponent : Option (Bool × List Char)

/-- Digits that do not fit are dropped: each one dropped from the whole part raises the exponent,
and those of the fraction leave no trace. -/
def NumberText.value (t : NumberText) : Except (Fault ε) Number :=
  let (whole, dropped) := appendDigits 0 t.whole
  let fraction := t.fraction.getD []
  let (digits, unread) := appendDigits whole fraction
  let power : Int := match t.exponent with
    | none => 0
    | some (negative, ds) => if negative then -decimalValue ds else decimalValue ds
  if !t.negative && dropped == 0 && t.fraction.isNone && t.exponent.isNone then
    .ok (.natural whole.toUInt64)
  else
    let exponent : Int := dropped - (fraction.length - unread : Nat) + power
    match Binary64.ofDecimal? t.negative digits exponent with
    | some x => .ok (.real x)
    | none => .error .malformed

def someDigits (atEnd : Fault ε) (cs : List Char) : Except (Fault ε) (List Char × List Char) :=
  match cs with
  | [] => .error atEnd
  | c :: _ => if c.isDigit then .ok (cs.span Char.isDigit) else .error .malformed

def wholePart (atEnd : Fault ε) (cs : List Char) : Except (Fault ε) (List Char × List Char) :=
  match cs with
  | '0' :: c :: rest => if c.isDigit then .error .malformed else .ok (['0'], c :: rest)
  | _ => someDigits atEnd cs

def fractionPart (atEnd : Fault ε) :
    List Char → Except (Fault ε) (Option (List Char) × List Char)
  | '.' :: cs => do
    let (ds, rest) ← someDigits atEnd cs
    return (some ds, rest)
  | cs => .ok (none, cs)

def exponentPart (atEnd : Fault ε) (cs : List Char) :
    Except (Fault ε) (Option (Bool × List Char) × List Char) :=
  match cs with
  | [] => .ok (none, [])
  | c :: rest =>
    if c = 'e' || c = 'E' then
      let (negative, rest) := match rest with
        | '-' :: rest => (true, rest)
        | '+' :: rest => (false, rest)
        | rest => (false, rest)
      do
        let (ds, rest) ← someDigits atEnd rest
        return (some (negative, ds), rest)
    else .ok (none, cs)

def numberText (atEnd : Fault ε) (cs : List Char) : Except (Fault ε) (NumberText × List Char) := do
  let (negative, cs) := match cs with
    | '-' :: cs => (true, cs)
    | cs => (false, cs)
  let (whole, cs) ← wholePart atEnd cs
  let (fraction, cs) ← fractionPart atEnd cs
  let (exponent, cs) ← exponentPart atEnd cs
  return (⟨negative, whole, fraction, exponent⟩, cs)

def readNumber : Reader ε Number := fun cs => do
  let (t, rest) ← numberText .ended cs
  return (← t.value, rest)

/-! Strings -/

def hexValue? (c : Char) : Option Nat :=
  if c.isDigit then some (c.toNat - '0'.toNat)
  else if 'a' ≤ c && c ≤ 'f' then some (c.toNat - 'a'.toNat + 10)
  else if 'A' ≤ c && c ≤ 'F' then some (c.toNat - 'A'.toNat + 10)
  else none

def fourHex? (a b c d : Char) : Option Nat := do
  return ((← hexValue? a) * 16 + (← hexValue? b)) * 256 + (← hexValue? c) * 16 + (← hexValue? d)

def isHighSurrogate (n : Nat) : Bool := 0xd800 ≤ n && n < 0xdc00
def isLowSurrogate (n : Nat) : Bool := 0xdc00 ≤ n && n < 0xe000

def joinSurrogates (high low : Nat) : Char :=
  Char.ofNat (0x10000 + (high - 0xd800) * 0x400 + (low - 0xdc00))

def shortEscape? : Char → Option Char
  | '"' => some '"'
  | '\\' => some '\\'
  | '/' => some '/'
  | 'b' => some '\x08'
  | 'f' => some '\x0c'
  | 'n' => some '\n'
  | 'r' => some '\r'
  | 't' => some '\t'
  | _ => none

/-- The fault of a numeric escape that has fewer than four characters left. The text has ended if
they are fewer than four bytes. -/
def cutEscape (cs : List Char) : Fault ε :=
  if (cs.map Char.utf8Size).foldr (· + ·) 0 < 4 then .ended else .malformed

def prepend (c : Char) (r : Except (Fault ε) (List Char × List Char)) :
    Except (Fault ε) (List Char × List Char) :=
  r.map fun (cs, rest) => (c :: cs, rest)

/-- The characters of a string up to its closing quote. A surrogate must be one of a pair, high
before low. -/
def stringChars : List Char → Except (Fault ε) (List Char × List Char)
  | [] => .error .ended
  | '"' :: rest => .ok ([], rest)
  | ['\\'] => .error .ended
  | '\\' :: 'u' :: a :: b :: c :: d :: rest =>
    match fourHex? a b c d with
    | none => .error .malformed
    | some n =>
      if isLowSurrogate n then .error .malformed
      else if !isHighSurrogate n then prepend (Char.ofNat n) (stringChars rest)
      else match rest with
        | '\\' :: 'u' :: a :: b :: c :: d :: rest =>
          match fourHex? a b c d with
          | none => .error .malformed
          | some m =>
            if isLowSurrogate m then prepend (joinSurrogates n m) (stringChars rest)
            else .error .malformed
        | '\\' :: 'u' :: cut => .error (cutEscape cut)
        | [] | ['\\'] => .error .ended
        | _ => .error .malformed
  | '\\' :: 'u' :: cut => .error (cutEscape cut)
  | '\\' :: e :: rest =>
    match shortEscape? e with
    | some c => prepend c (stringChars rest)
    | none => .error .malformed
  | c :: rest => if c.toNat < 0x20 then .error .malformed else prepend c (stringChars rest)

def readString : Reader ε String := fun cs => do
  let (chars, rest) ← stringChars cs
  return (String.ofList chars, rest)

/-! Arrays and objects -/

/-- The items of an array from the first one on, up to and including the closing bracket. Each item
takes a character at least, so a text has no more items than characters. -/
def itemsFrom {α : Type} (item : Reader ε α) : Nat → Reader ε (List α)
  | 0, _ => .error .malformed
  | count + 1, cs => do
    let (x, rest) ← item cs
    match skipSpace rest with
    | ',' :: rest =>
      let (xs, rest) ← itemsFrom item count rest
      return (x :: xs, rest)
    | ']' :: rest => return ([x], rest)
    | [] => .error .ended
    | _ => .error .malformed

def readItems {α : Type} (item : Reader ε α) : Reader ε (List α) := fun cs =>
  match skipSpace cs with
  | ']' :: rest => .ok ([], rest)
  | [] => .error .ended
  | cs => itemsFrom item (cs.length + 1) cs

def colon (cs : List Char) : Except (Fault ε) (List Char) :=
  match skipSpace cs with
  | ':' :: rest => .ok rest
  | [] => .error .ended
  | _ => .error .malformed

/-- The members of an object from the quote of a key on, up to and including the closing brace.
`member` reads what follows a key and adds it to what was read before. -/
def membersFrom {σ : Type} (key : Reader ε String) (member : σ → String → Reader ε σ) :
    Nat → σ → Reader ε σ
  | 0, _, _ => .error .malformed
  | count + 1, s, cs =>
    match skipSpace cs with
    | '"' :: cs => do
      let (k, rest) ← key cs
      let (s, rest) ← member s k rest
      match skipSpace rest with
      | ',' :: rest => membersFrom key member count s rest
      | '}' :: rest => return (s, rest)
      | [] => .error .ended
      | _ => .error .malformed
    | [] => .error .ended
    | _ => .error .malformed

def readMembers {σ : Type} (key : Reader ε String) (member : σ → String → Reader ε σ) (s : σ) :
    Reader ε σ := fun cs =>
  match skipSpace cs with
  | '}' :: rest => .ok (s, rest)
  | cs => membersFrom key member (cs.length + 1) s cs

structure Leaves (ε : Type) where
  number : Reader ε Number
  string : Reader ε String

def strict : Leaves ε := ⟨readNumber, readString⟩

def readValue (leaves : Leaves ε) (depth : Nat) : Reader ε Json := fun cs =>
  match skipSpace cs with
  | [] => .error .ended
  | 'n' :: cs => do return (.null, ← keyword ['u', 'l', 'l'] cs)
  | 't' :: cs => do return (.bool true, ← keyword ['r', 'u', 'e'] cs)
  | 'f' :: cs => do return (.bool false, ← keyword ['a', 'l', 's', 'e'] cs)
  | '"' :: cs => do
    let (s, rest) ← leaves.string cs
    return (.string s, rest)
  | '[' :: cs =>
    match depth with
    | 0 => .error .malformed
    | depth + 1 => do
      let (js, rest) ← readItems (readValue leaves depth) cs
      return (.array js, rest)
  | '{' :: cs =>
    match depth with
    | 0 => .error .malformed
    | depth + 1 => do
      let (ms, rest) ← readMembers leaves.string
        (fun ms k cs => do
          let (j, rest) ← readValue leaves depth (← colon cs)
          return (ms ++ [(k, j)], rest)) [] cs
      return (.object ms, rest)
  | c :: cs =>
    if c = '-' || c.isDigit then do
      let (n, rest) ← leaves.number (c :: cs)
      return (.number n, rest)
    else .error .malformed

/-- The fault of a value that is not of the kind that has to stand here. A leaf is read first, since
it may be malformed; an array or object is refused at its bracket. -/
def refuse {α : Type} (cause : ε) : Reader ε α := fun cs =>
  match skipSpace cs with
  | '[' :: _ | '{' :: _ => .error (.refused cause)
  | cs => do
    let _ ← readValue strict 0 cs
    .error (.refused cause)

/-! Skimming -/

/-- A string of which only the extent matters: numeric escapes need not form characters. -/
def skimChars : List Char → Except (Fault ε) (List Char)
  | [] => .error .ended
  | '"' :: rest => .ok rest
  | ['\\'] => .error .ended
  | '\\' :: 'u' :: a :: b :: c :: d :: rest =>
    if (fourHex? a b c d).isSome then skimChars rest else .error .malformed
  | '\\' :: 'u' :: cut => .error (cutEscape cut)
  | '\\' :: e :: rest => if (shortEscape? e).isSome then skimChars rest else .error .malformed
  | c :: rest => if c.toNat < 0x20 then .error .malformed else skimChars rest

def skimming : Leaves ε where
  number := fun cs => do
    let (_, rest) ← numberText .malformed cs
    return (.natural 0, rest)
  string := fun cs => do return ("", ← skimChars cs)

def skim (cs : List Char) : Except (Fault ε) (List Char) := do
  let (_, rest) ← readValue skimming cs.length cs
  return rest

/-! Whole texts -/

def depthLimit : Nat := 127

def readWhole {α : Type} (r : Reader ε α) (text : String) : Except (Fault ε) α := do
  let (x, rest) ← r text.toList
  if (skipSpace rest).isEmpty then return x else .error .malformed

end ScriptCheck.Json
