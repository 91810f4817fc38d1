/-! UTF-16 code units: a character of the basic plane is one unit, any other is two. -/
namespace ScriptCheck.Text

def unitSize (c : Char) : Nat := if c.toNat < 0x10000 then 1 else 2

def units : List Char → Nat
  | [] => 0
  | c :: cs => unitSize c + units cs

end ScriptCheck.Text
