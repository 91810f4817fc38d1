import ScriptCheck.Json.Basic
import ScriptCheck.Number.Shortest

/-! Writing JSON, either compactly or with each item on a line of its own. -/
namespace ScriptCheck.Json

def hexDigit (n : Nat) : Char := (Nat.digitChar n)

/-- A character inside a quoted string. Quotes, backslashes and control characters are escaped,
control characters by their short form where there is one; all else stands as it is. -/
def escapeChar (c : Char) : List Char :=
  if c = '"' then ['\\', '"']
  else if c = '\\' then ['\\', '\\']
  else if c = '\n' then ['\\', 'n']
  else if c = '\r' then ['\\', 'r']
  else if c = '\t' then ['\\', 't']
  else if c = '\x08' then ['\\', 'b']
  else if c = '\x0c' then ['\\', 'f']
  else if c.toNat < 0x20 then
    ['\\', 'u', '0', '0', hexDigit (c.toNat / 16), hexDigit (c.toNat % 16)]
  else [c]

def quote (s : String) : String :=
  "\"" ++ String.ofList (s.toList.flatMap escapeChar) ++ "\""

def braced (text : String) : String := String.singleton '{' ++ text ++ String.singleton '}'

def Number.text : Number → String
  | .natural n => toString n.toNat
  | .real x => x.text

mutual
def compact : Json → String
  | .null => "null"
  | .bool b => if b then "true" else "false"
  | .number n => n.text
  | .string s => quote s
  | .array items => "[" ++ compactItems items ++ "]"
  | .object members => braced (compactMembers members)

def compactItems : List Json → String
  | [] => ""
  | [j] => compact j
  | j :: k :: rest => compact j ++ "," ++ compactItems (k :: rest)

def compactMembers : List (String × Json) → String
  | [] => ""
  | [(key, j)] => quote key ++ ":" ++ compact j
  | (key, j) :: m :: rest => quote key ++ ":" ++ compact j ++ "," ++ compactMembers (m :: rest)
end

def newline (level : Nat) : String := "\n" ++ String.ofList (List.replicate (2 * level) ' ')

mutual
def indented (level : Nat) : Json → String
  | .array [] => "[]"
  | .object [] => "{}"
  | .array items => "[" ++ indentedItems (level + 1) items ++ newline level ++ "]"
  | .object members => braced (indentedMembers (level + 1) members ++ newline level)
  | .null => "null"
  | .bool b => if b then "true" else "false"
  | .number n => n.text
  | .string s => quote s

def indentedItems (level : Nat) : List Json → String
  | [] => ""
  | [j] => newline level ++ indented level j
  | j :: k :: rest => newline level ++ indented level j ++ "," ++ indentedItems level (k :: rest)

def indentedMembers (level : Nat) : List (String × Json) → String
  | [] => ""
  | [(key, j)] => newline level ++ quote key ++ ": " ++ indented level j
  | (key, j) :: m :: rest =>
    newline level ++ quote key ++ ": " ++ indented level j ++ "," ++
      indentedMembers level (m :: rest)
end

end ScriptCheck.Json
