import ScriptCheck.Number.Binary64

/-! The shortest decimal that reads back as a given double: the fewest digits for which some decimal
is nearer to it than to any other double, and of those the nearest. -/
namespace ScriptCheck

/-- The value `d.ddd · 10^exponent`, with at least one digit and no zero at the end unless it is
the only digit. -/
structure Decimal where
  digits : List Char
  exponent : Int
  deriving DecidableEq

namespace Binary64

def leadingExponent (code : Nat) : Int :=
  (Nat.toDigits 10 (multiple code * tenTo 324 / twoTo 1074)).length - 325

def readsAs (code digits : Nat) : Int → Bool
  | .ofNat k => nearest (digits * tenTo k) 1 == code
  | .negSucc k => nearest digits (tenTo (k + 1)) == code

def inUnits (code : Nat) : Int → Nat × Nat
  | .ofNat k => (multiple code, twoTo 1074 * tenTo k)
  | .negSucc k => (multiple code * tenTo (k + 1), twoTo 1074)

/-- The multiple of `10^exponent` that reads back as the magnitude; the nearer one if the
multiples on both sides do, and the even one if they are equally near. -/
def onGrid? (code : Nat) (exponent : Int) : Option Nat :=
  let (num, den) := inUnits code exponent
  let below := num / den
  let above := below + 1
  let rest := num % den
  let downFirst := 2 * rest < den || (2 * rest == den && below % 2 == 0)
  let (first, second) := if downFirst then (below, above) else (above, below)
  if readsAs code first exponent then some first
  else if readsAs code second exponent then some second
  else none

def firstGrid (code : Nat) (exponent : Int) : Nat → Nat × Int
  | 0 => let (num, den) := inUnits code exponent
    (num / den, exponent)
  | tries + 1 =>
    match onGrid? code exponent with
    | some digits => (digits, exponent)
    | none => firstGrid code (exponent - 1) tries

def dropFinalZeros (digits : List Char) : List Char :=
  (digits.reverse.dropWhile (· == '0')).reverse

def shortest (code : Nat) : Decimal :=
  let (digits, last) := firstGrid code (leadingExponent code) 17
  let written := Nat.toDigits 10 digits
  ⟨dropFinalZeros written, last + (written.length - 1)⟩

structure Layout where
  lowestPlain : Int
  highestPlain : Int
  exponentMark : String
  positiveSign : String

/-- Places from 10^-5 up to 10^15 are written out, with at least one digit behind the point; other
magnitudes carry a signed exponent. -/
def layout : Layout := ⟨-5, 15, "e", "+"⟩

def zeros (n : Nat) : String := String.ofList (List.replicate n '0')

def plain (d : Decimal) : String :=
  let text := String.ofList d.digits
  match d.exponent with
  | .ofNat k =>
    let whole := d.digits.take (k + 1)
    let fraction := d.digits.drop (k + 1)
    String.ofList whole ++ zeros (k + 1 - d.digits.length) ++ "." ++
      (if fraction.isEmpty then "0" else String.ofList fraction)
  | .negSucc k => "0." ++ zeros k ++ text

def withExponent (d : Decimal) : String :=
  let fraction := d.digits.drop 1
  String.ofList (d.digits.take 1) ++
    (if fraction.isEmpty then "" else "." ++ String.ofList fraction) ++
    layout.exponentMark ++ (if 0 ≤ d.exponent then layout.positiveSign else "") ++
    toString d.exponent

def magnitudeText (code : Nat) : String :=
  if code = 0 then "0.0"
  else
    let d := shortest code
    if layout.lowestPlain ≤ d.exponent && d.exponent ≤ layout.highestPlain then plain d
    else withExponent d

def text (x : Binary64) : String := (if x.negative then "-" else "") ++ magnitudeText x.code

end Binary64
end ScriptCheck
