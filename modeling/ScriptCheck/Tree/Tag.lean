/-! The names by which trees say what a node is. -/
namespace ScriptCheck

inductive Tag where
  | define | assign | addAssign | subAssign | ret | forLoop | eachLoop | loop | brk | cont | ns
  | ifElse | function | select | block | call | not | and | or | template | index | prop | str
  | num | bool | null | arr | obj | ident | namedType | fnType | other
  deriving DecidableEq

namespace Tag

/-- All tags, each at the place that can also stand for it as a number. -/
def all : List Tag :=
  [.define, .assign, .addAssign, .subAssign, .ret, .forLoop, .eachLoop, .loop, .brk, .cont, .ns,
   .ifElse, .function, .select, .block, .call, .not, .and, .or, .template, .index, .prop, .str,
   .num, .bool, .null, .arr, .obj, .ident, .namedType, .fnType, .other]

def name : Tag → String
  | .define => "def"
  | .assign => "assign"
  | .addAssign => "addAssign"
  | .subAssign => "subAssign"
  | .ret => "return"
  | .forLoop => "for"
  | .eachLoop => "each"
  | .loop => "loop"
  | .brk => "break"
  | .cont => "continue"
  | .ns => "ns"
  | .ifElse => "if"
  | .function => "fn"
  | .select => "match"
  | .block => "block"
  | .call => "call"
  | .not => "not"
  | .and => "and"
  | .or => "or"
  | .template => "tmpl"
  | .index => "index"
  | .prop => "prop"
  | .str => "str"
  | .num => "num"
  | .bool => "bool"
  | .null => "null"
  | .arr => "arr"
  | .obj => "obj"
  | .ident => "identifier"
  | .namedType => "namedTypeSource"
  | .fnType => "fnTypeSource"
  | .other => "other"

def ofName (s : String) : Tag := (all.find? fun t => t.name == s).getD .other

def ofNumber (n : Nat) : Tag := all[n]?.getD .other

end Tag
end ScriptCheck
