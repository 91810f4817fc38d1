/-! Wildcard patterns. A question mark stands for one character, a star for any number of them, two
stars for any number of whole directories, and brackets for one character out of a set, or not out
of it if an exclamation mark comes first. -/
namespace ScriptCheck

inductive Wildcard where
  | char (c : Char)
  | any
  | sequence
  | directories
  | within (ranges : List (Char × Char))
  | except (ranges : List (Char × Char))
  deriving DecidableEq

abbrev Pattern := List Wildcard

inductive PatternFault where
  | tooManyStars
  | partialComponent
  | openRange
  deriving DecidableEq

def PatternFault.message : PatternFault → String
  | .tooManyStars => "wildcards are either regular `*` or recursive `**`"
  | .partialComponent => "recursive wildcards must form a single path component"
  | .openRange => "invalid range pattern"

structure PatternError where
  fault : PatternFault
  position : Nat
  deriving DecidableEq

def PatternError.message (e : PatternError) : String :=
  "Pattern syntax error near position " ++ toString e.position ++ ": " ++ e.fault.message

namespace Pattern

def ranges : List Char → List (Char × Char)
  | a :: '-' :: b :: rest => (a, b) :: ranges rest
  | c :: rest => (c, c) :: ranges rest
  | [] => []

/-- Splits the members of a set from the rest behind the closing bracket. The first member may be a
bracket itself. -/
def splitSet : List Char → Option (List Char × List Char)
  | [] => none
  | first :: rest =>
    match rest.dropWhile (· ≠ ']') with
    | [] => none
    | _ :: after => some (first :: rest.takeWhile (· ≠ ']'), after)

/-- Reads the pattern from character `at` on, behind the character `before`. The bound is the number
of characters. -/
def readFrom : Nat → Nat → Option Char → List Char → Except PatternError Pattern
  | _, _, _, [] => .ok []
  | 0, _, _, _ => .ok []
  | bound + 1, i, before, c :: cs =>
    if c = '?' then do return .any :: (← readFrom bound (i + 1) (some c) cs)
    else if c = '*' then
      match cs with
      | '*' :: '*' :: _ => .error ⟨.tooManyStars, i + 2⟩
      | '*' :: rest =>
        if before = none || before = some '/' then
          match rest with
          | [] => .ok [.directories]
          | '/' :: rest => do
            return .directories :: (← readFrom bound (i + 3) (some '/') rest)
          | _ => .error ⟨.partialComponent, i + 2⟩
        else .error ⟨.partialComponent, i - 1⟩
      | rest => do return .sequence :: (← readFrom bound (i + 1) (some c) rest)
    else if c = '[' then
      let negated := cs.head? == some '!'
      match splitSet (if negated then cs.drop 1 else cs) with
      | none => .error ⟨.openRange, i⟩
      | some (set, rest) => do
        let width := (c :: cs).length - rest.length
        let more ← readFrom bound (i + width) (some ']') rest
        return (if negated then .except (ranges set) else .within (ranges set)) :: more
    else do return .char c :: (← readFrom bound (i + 1) (some c) cs)

def parse (text : String) : Except PatternError Pattern :=
  readFrom text.length 0 none text.toList

def inRanges (rs : List (Char × Char)) (c : Char) : Bool := rs.any fun (a, b) => a ≤ c && c ≤ b

def tails {α : Type} : List α → List (List α)
  | [] => [[]]
  | a :: as => (a :: as) :: tails as

def behindSlashes : List Char → List (List Char)
  | [] => [[]]
  | c :: cs => if c = '/' then cs :: behindSlashes cs else behindSlashes cs

/-- The pattern stands for the whole text. A slash is a character like any other, except that two
stars stop only behind one or at the end. -/
def accepts : Pattern → List Char → Bool
  | [], cs => cs.isEmpty
  | .sequence :: rest, cs => (tails cs).any fun more => accepts rest more
  | .directories :: rest, cs => (cs :: behindSlashes cs).any fun more => accepts rest more
  | .char a :: rest, cs =>
    match cs with
    | c :: cs => a == c && accepts rest cs
    | [] => false
  | .any :: rest, cs =>
    match cs with
    | _ :: cs => accepts rest cs
    | [] => false
  | .within rs :: rest, cs =>
    match cs with
    | c :: cs => inRanges rs c && accepts rest cs
    | [] => false
  | .except rs :: rest, cs =>
    match cs with
    | c :: cs => !inRanges rs c && accepts rest cs
    | [] => false

def accepting (p : Pattern) (text : String) : Bool := p.accepts text.toList

def literal? : Pattern → Option (List Char)
  | [] => some []
  | .char c :: rest => (literal? rest).map (c :: ·)
  | _ => none

end Pattern
end ScriptCheck
