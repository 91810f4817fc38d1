import ScriptCheck.Json.Reader

/-! The plain words that YAML reads as numbers. A whole number in base two, eight or sixteen has at
most 128 bits, and a decimal is finite as a double; what is larger is text. -/
namespace ScriptCheck.Yaml

def dropSign : List Char → List Char
  | '+' :: cs | '-' :: cs => cs
  | cs => cs

def isDigits (cs : List Char) : Bool := !cs.isEmpty && cs.all Char.isDigit

/-- Digits behind a needless zero, which YAML versions read differently. -/
def isPaddedDigits (cs : List Char) : Bool :=
  match dropSign cs with
  | '0' :: c :: rest => isDigits (c :: rest)
  | _ => false

def valueIn? (base : Nat) (digits : List Char) : Option Nat :=
  if digits.isEmpty then none
  else digits.foldlM (fun n c => (Json.hexValue? c).bind fun d =>
    if d < base then some (n * base + d) else none) 0

def radixValue? : List Char → Option Nat
  | '0' :: 'x' :: digits => valueIn? 16 digits
  | '0' :: 'o' :: digits => valueIn? 8 digits
  | '0' :: 'b' :: digits => valueIn? 2 digits
  | _ => none

/-- A negative number takes its sign from the 128 bits, any other has all of them. -/
def isRadixNumber : List Char → Bool
  | '-' :: cs => (radixValue? cs).any (· ≤ twoTo 127)
  | cs => (radixValue? (dropSign cs)).any (· < twoTo 128)

structure Decimal where
  digits : List Char
  exponent : Int

namespace Decimal

def exponent? : List Char → Option Int
  | [] => some 0
  | c :: cs =>
    let digits := dropSign cs
    if (c == 'e' || c == 'E') && isDigits digits then
      let n := Json.decimalValue digits
      some (if cs.head? == some '-' then -n else n)
    else none

def parse? (cs : List Char) : Option Decimal :=
  let cs := dropSign cs
  let whole := cs.takeWhile Char.isDigit
  let (fraction, rest) := match cs.dropWhile Char.isDigit with
    | '.' :: more => (more.takeWhile Char.isDigit, more.dropWhile Char.isDigit)
    | rest => ([], rest)
  if whole.isEmpty && fraction.isEmpty then none
  else (exponent? rest).map fun e => ⟨whole ++ fraction, e - fraction.length⟩

/-- The nearest double is finite. A number below 10^308 always is, and one from 10^309 on never, so
large powers are not computed. -/
def isFinite (d : Decimal) : Bool :=
  let digits := d.digits.dropWhile (· == '0')
  let size : Int := digits.length + d.exponent
  if digits.isEmpty || size ≤ 308 then true
  else if 309 < size then false
  else
    let n := Json.decimalValue digits
    match d.exponent with
    | .ofNat k => Binary64.nearest (n * tenTo k) 1 < overflowCode
    | .negSucc k => Binary64.nearest n (tenTo (k + 1)) < overflowCode

end Decimal

def isDecimal (cs : List Char) : Bool := (Decimal.parse? cs).any Decimal.isFinite

def isSpecialNumber (s : String) : Bool :=
  [".inf", ".Inf", ".INF", "+.inf", "+.Inf", "+.INF", "-.inf", "-.Inf", "-.INF",
    ".nan", ".NaN", ".NAN"].contains s

end ScriptCheck.Yaml
