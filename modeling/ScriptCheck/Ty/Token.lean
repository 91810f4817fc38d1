import ScriptCheck.Text.Alphanumeric
import ScriptCheck.Text.Blank

/-! Words of a type expression. A name is a run of name characters as long as it can be, three dots
make one word, and any other character that is not blank is a word of its own. Each word is kept
with the byte offset at which it starts. -/
namespace ScriptCheck.Ty

def isNameChar (c : Char) : Bool := Text.isAlphanumeric c || c == '_'

inductive Token where
  | name (chars : List Char)
  | ellipsis
  | mark (c : Char)
  deriving DecidableEq

structure Lexeme where
  token : Token
  offset : Nat
  deriving DecidableEq

/-- Puts a name character in front of the lexemes that follow it: a name that starts right behind
it grows by the character, and otherwise the character is a name by itself. -/
def attach (c : Char) (offset : Nat) : List Lexeme → List Lexeme
  | ⟨.name chars, next⟩ :: rest =>
    if next = offset + c.utf8Size then ⟨.name (c :: chars), offset⟩ :: rest
    else ⟨.name [c], offset⟩ :: ⟨.name chars, next⟩ :: rest
  | rest => ⟨.name [c], offset⟩ :: rest

def scan (offset : Nat) : List Char → List Lexeme
  | [] => []
  | '.' :: '.' :: '.' :: cs => ⟨.ellipsis, offset⟩ :: scan (offset + 3) cs
  | c :: cs =>
    if Text.isBlank c then scan (offset + c.utf8Size) cs
    else if isNameChar c then attach c offset (scan (offset + c.utf8Size) cs)
    else ⟨.mark c, offset⟩ :: scan (offset + c.utf8Size) cs

end ScriptCheck.Ty
