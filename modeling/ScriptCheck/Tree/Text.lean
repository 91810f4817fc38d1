import ScriptCheck.Json.Text
import ScriptCheck.Tree.Node
import ScriptCheck.Tree.Tag

/-! Writing trees as JSON. A node is an object with its tag first, then the members of its kind in
a fixed order, then its place. Members that are absent are left out; lists are always written. -/
namespace ScriptCheck

def Span.toJson (s : Span) : Json :=
  .object [("start", .number (.natural s.start)), ("end", .number (.natural s.stop))]

def Adjustment.tag : Adjustment → Tag
  | .add => .addAssign
  | .subtract => .subAssign

def Connective.tag : Connective → Tag
  | .and => .and
  | .or => .or

def Kind.tag : Kind → Tag
  | .define .. => .define
  | .assign .. => .assign
  | .adjust how .. => how.tag
  | .ret .. => .ret
  | .forLoop .. => .forLoop
  | .eachLoop .. => .eachLoop
  | .loop .. => .loop
  | .brk => .brk
  | .cont => .cont
  | .ns .. => .ns
  | .ifElse .. => .ifElse
  | .function .. => .function
  | .select .. => .select
  | .block .. => .block
  | .call .. => .call
  | .not .. => .not
  | .logic how .. => how.tag
  | .template .. => .template
  | .index .. => .index
  | .prop .. => .prop
  | .str .. => .str
  | .num .. => .num
  | .bool .. => .bool
  | .null => .null
  | .arr .. => .arr
  | .obj .. => .obj
  | .ident .. => .ident
  | .namedType .. => .namedType
  | .fnType .. => .fnType
  | .other => .other

mutual
def Node.toJson : Node → Json
  | .mk kind loc =>
    .object (("type", .string kind.tag.name) :: kind.members ++
      (loc.map fun s => ("loc", s.toJson)).toList)

def Kind.members : Kind → List (String × Json)
  | .define name declared value mutable =>
    ("name", .string name) :: optional "varType" declared ++
      [("expr", value.toJson), ("mut", .bool mutable)]
  | .assign dest value => [("dest", dest.toJson), ("expr", value.toJson)]
  | .adjust _ dest value => [("dest", dest.toJson), ("expr", value.toJson)]
  | .ret value => [("expr", value.toJson)]
  | .forLoop var low high times body =>
    (var.map fun v => ("var", .string v)).toList ++ optional "from" low ++ optional "to" high ++
      optional "times" times ++ [("for", body.toJson)]
  | .eachLoop var items body =>
    [("var", .string var), ("items", items.toJson), ("for", body.toJson)]
  | .loop body => [("statements", .array (nodesToJson body))]
  | .ns name members => [("name", .string name), ("members", .array (nodesToJson members))]
  | .ifElse cond yes elseifs no =>
    ("cond", cond.toJson) :: ("then", yes.toJson) ::
      ("elseif", .array (branchesToJson "cond" "then" elseifs)) :: optional "else" no
  | .function params result body =>
    ("args", .array (paramsToJson params)) :: optional "retType" result ++
      [("children", .array (nodesToJson body))]
  | .select about arms default =>
    ("about", about.toJson) :: ("qs", .array (branchesToJson "q" "a" arms)) ::
      optional "default" default
  | .block body => [("statements", .array (nodesToJson body))]
  | .call target args => [("target", target.toJson), ("args", .array (nodesToJson args))]
  | .not operand => [("expr", operand.toJson)]
  | .logic _ left right => [("left", left.toJson), ("right", right.toJson)]
  | .template parts => [("tmpl", .array (partsToJson parts))]
  | .index target index => [("target", target.toJson), ("index", index.toJson)]
  | .prop target name => [("target", target.toJson), ("name", .string name)]
  | .str value => [("value", .string value)]
  | .num value => [("value", .number (.real value))]
  | .bool value => [("value", .bool value)]
  | .arr items => [("value", .array (nodesToJson items))]
  | .obj entries => [("value", .object (entriesToJson entries))]
  | .ident name => [("name", .string name)]
  | .namedType name inner => ("name", .string name) :: optional "inner" inner
  | .fnType params result => [("args", .array (nodesToJson params)), ("result", result.toJson)]
  | .brk | .cont | .null | .other => []

def optional (name : String) : Option Node → List (String × Json)
  | none => []
  | some n => [(name, n.toJson)]

def nodesToJson : List Node → List Json
  | [] => []
  | n :: rest => n.toJson :: nodesToJson rest

def branchesToJson (test body : String) : List Branch → List Json
  | [] => []
  | .mk t b :: rest => .object [(test, t.toJson), (body, b.toJson)] :: branchesToJson test body rest

def paramsToJson : List Param → List Json
  | [] => []
  | .mk name declared :: rest =>
    .object (("name", .string name) :: optional "argType" declared) :: paramsToJson rest

def partsToJson : List Part → List Json
  | [] => []
  | .text s :: rest => .string s :: partsToJson rest
  | .expr e :: rest => e.toJson :: partsToJson rest

def entriesToJson : List Entry → List (String × Json)
  | [] => []
  | .mk key value :: rest => (key, value.toJson) :: entriesToJson rest
end

namespace Program

def toJson (p : Program) : Json := .array (nodesToJson p)

def text (p : Program) : String := p.toJson.compact

end Program
end ScriptCheck
