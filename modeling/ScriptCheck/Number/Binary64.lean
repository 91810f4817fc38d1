/-! Finite double-precision numbers in exact integer arithmetic.

Every finite double is a whole multiple of 2^-1074, and in increasing order the magnitudes are
numbered 0, 1, 2, …; the number of a magnitude is its `code`. Below 2^53 the code is the multiple
itself; above, each run of 2^52 codes covers one doubling. Rounding up is adding one to the code,
also where that leaves a run. -/
namespace ScriptCheck

def twoTo (n : Nat) : Nat := Nat.pow 2 n
def tenTo (n : Nat) : Nat := Nat.pow 10 n

def overflowCode : Nat := 2047 * twoTo 52

structure Binary64 where
  negative : Bool
  code : Nat
  finite : code < overflowCode
  deriving DecidableEq

namespace Binary64

/-- The magnitude with this code, as a multiple of 2^-1074. -/
def multiple (code : Nat) : Nat :=
  if code < twoTo 52 then code else (twoTo 52 + code % twoTo 52) * twoTo (code / twoTo 52 - 1)

/-- Code of the magnitude nearest to `num / den`; of two that are equally near, the even one. -/
def nearest (num den : Nat) : Nat :=
  let scaled := num * twoTo 1074
  let shift := (scaled / den).log2 - 52
  let unit := den * twoTo shift
  let code := shift * twoTo 52 + scaled / unit
  let rest := scaled % unit
  if unit < 2 * rest || (2 * rest == unit && code % 2 == 1) then code + 1 else code

def product (a b : Nat) : Nat := nearest (multiple a * multiple b) (twoTo 1074 * twoTo 1074)

def quotient (a b : Nat) : Nat := nearest (multiple a) (multiple b)

def powerOfTen (k : Nat) : Nat := nearest (tenTo k) 1

/-- Code of `digits · 10^exponent` for digits below 2^64, or none if it is too large. The digits
are rounded to a double and then scaled by one rounding multiplication or division; below 10^-308
it takes two divisions. The result can be one place away from the nearest double. -/
def scale (digits : Nat) : Int → Option Nat
  | .ofNat k =>
    if digits = 0 then some 0
    else if 308 < k then none
    else
      let code := product (nearest digits 1) (powerOfTen k)
      if code < overflowCode then some code else none
  | .negSucc k =>
    let k := k + 1
    if k ≤ 308 then some (quotient (nearest digits 1) (powerOfTen k))
    else if k ≤ 616 then
      some (quotient (quotient (nearest digits 1) (powerOfTen 308)) (powerOfTen (k - 308)))
    else some 0

def ofCode? (negative : Bool) (code : Nat) : Option Binary64 :=
  if finite : code < overflowCode then some ⟨negative, code, finite⟩ else none

def ofDecimal? (negative : Bool) (digits : Nat) (exponent : Int) : Option Binary64 :=
  (scale digits exponent).bind (ofCode? negative)

end Binary64
end ScriptCheck
