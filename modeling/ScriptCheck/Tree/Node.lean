import ScriptCheck.Number.Binary64
import ScriptCheck.Source.Span

/-! Syntax trees of scripts. A node is what it is, its kind, with the place in the source that it
came from if that is known. -/
namespace ScriptCheck

inductive Adjustment where
  | add
  | subtract
  deriving DecidableEq

inductive Connective where
  | and
  | or
  deriving DecidableEq

mutual
inductive Node where
  | mk (kind : Kind) (loc : Option Span)

inductive Kind where
  | define (name : String) (declared : Option Node) (value : Node) (mutable : Bool)
  | assign (dest value : Node)
  | adjust (how : Adjustment) (dest value : Node)
  | ret (value : Node)
  | forLoop (var : Option String) (low high times : Option Node) (body : Node)
  | eachLoop (var : String) (items body : Node)
  | loop (body : List Node)
  | brk
  | cont
  | ns (name : String) (members : List Node)
  | ifElse (cond yes : Node) (elseifs : List Branch) (no : Option Node)
  | function (params : List Param) (result : Option Node) (body : List Node)
  | select (about : Node) (arms : List Branch) (default : Option Node)
  | block (body : List Node)
  | call (target : Node) (args : List Node)
  | not (operand : Node)
  | logic (how : Connective) (left right : Node)
  | template (parts : List Part)
  | index (target index : Node)
  | prop (target : Node) (name : String)
  | str (value : String)
  | num (value : Binary64)
  | bool (value : Bool)
  | null
  | arr (items : List Node)
  | obj (entries : List Entry)
  | ident (name : String)
  | namedType (name : String) (inner : Option Node)
  | fnType (params : List Node) (result : Node)
  -- anything about which there is no rule
  | other

/-- What is tested and what follows if it holds: a further branch of a conditional, or an arm of a
selection. -/
inductive Branch where
  | mk (test body : Node)

inductive Param where
  | mk (name : String) (declared : Option Node)

inductive Part where
  | text (s : String)
  | expr (e : Node)

inductive Entry where
  | mk (key : String) (value : Node)
end

namespace Node

def kind : Node → Kind
  | .mk kind _ => kind

def loc : Node → Option Span
  | .mk _ loc => loc

/-- The place to report; nodes without one report at the very start. -/
def span (n : Node) : Span := n.loc.getD Span.none

end Node

def Param.name : Param → String
  | .mk name _ => name

def Entry.key : Entry → String
  | .mk key _ => key

abbrev Program := List Node

end ScriptCheck
