import ScriptCheck.Json.Reader
import ScriptCheck.Tree.Node
import ScriptCheck.Tree.Tag

/-! Loading trees from JSON.

The members of a node are taken in the order of the text, each completely before the next, and what
is missing is found out after the last one. Members that do not belong to a node's kind are passed
over. The outermost nodes are loaded while the text is being read: such a node's place is looked at
as it is reached, and everything else in it once its closing brace has been read. -/
namespace ScriptCheck

inductive ShapeError where
  | unsuitable
  | missingField (name : String)
  | duplicateField (name : String)
  deriving DecidableEq

def ShapeError.message : ShapeError → String
  | .unsuitable => "unsuitable value"
  | .missingField name => "missing field `" ++ name ++ "`"
  | .duplicateField name => "duplicate field `" ++ name ++ "`"

abbrev LoadError := Json.Fault ShapeError

def LoadError.message : LoadError → String
  | .malformed => "malformed JSON"
  | .ended => "unexpected end of JSON"
  | .refused cause => cause.message

/-! Records of two members -/

def offsetOf : Json → Except ShapeError UInt64
  | .number (.natural n) => .ok n
  | _ => .error .unsuitable

structure PartialSpan where
  start : Option UInt64
  stop : Option UInt64

def PartialSpan.finish (p : PartialSpan) : Except ShapeError Span :=
  match p.start, p.stop with
  | none, _ => .error (.missingField "start")
  | _, none => .error (.missingField "end")
  | some start, some stop => .ok ⟨start, stop⟩

def spanMembers (seen : PartialSpan) : List (String × Json) → Except ShapeError Span
  | [] => seen.finish
  | (key, j) :: rest =>
    if key = "start" then
      if seen.start.isSome then .error (.duplicateField "start")
      else do spanMembers { seen with start := some (← offsetOf j) } rest
    else if key = "end" then
      if seen.stop.isSome then .error (.duplicateField "end")
      else do spanMembers { seen with stop := some (← offsetOf j) } rest
    else spanMembers seen rest

/-- A place: nothing, an object, or the two offsets alone. -/
def locOf : Json → Except ShapeError (Option Span)
  | .null => .ok none
  | .object ms => some <$> spanMembers ⟨none, none⟩ ms
  | .array [a, b] => do return some ⟨← offsetOf a, ← offsetOf b⟩
  | _ => .error .unsuitable

/-! Members of a node -/

inductive Shape where
  | node
  | maybeNode
  | nodes
  | text
  | maybeText
  | flag
  | number
  | branches (test body : String)
  | params
  | parts
  | entries

inductive Field where
  | node (n : Node)
  | maybeNode (n : Option Node)
  | nodes (ns : List Node)
  | text (s : String)
  | maybeText (s : Option String)
  | flag (b : Bool)
  | number (x : Binary64)
  | branches (bs : List Branch)
  | params (ps : List Param)
  | parts (ps : List Part)
  | entries (es : List Entry)

abbrev Fields := List (String × Field)

def Tag.schema : Tag → List (String × Shape)
  | .define => [("name", .text), ("varType", .maybeNode), ("expr", .node), ("mut", .flag)]
  | .assign | .addAssign | .subAssign => [("dest", .node), ("expr", .node)]
  | .ret | .not => [("expr", .node)]
  | .forLoop =>
    [("var", .maybeText), ("from", .maybeNode), ("to", .maybeNode), ("times", .maybeNode),
     ("for", .node)]
  | .eachLoop => [("var", .text), ("items", .node), ("for", .node)]
  | .loop | .block => [("statements", .nodes)]
  | .ns => [("name", .text), ("members", .nodes)]
  | .ifElse =>
    [("cond", .node), ("then", .node), ("elseif", .branches "cond" "then"), ("else", .maybeNode)]
  | .function => [("args", .params), ("retType", .maybeNode), ("children", .nodes)]
  | .select => [("about", .node), ("qs", .branches "q" "a"), ("default", .maybeNode)]
  | .call => [("target", .node), ("args", .nodes)]
  | .and | .or => [("left", .node), ("right", .node)]
  | .template => [("tmpl", .parts)]
  | .index => [("target", .node), ("index", .node)]
  | .prop => [("target", .node), ("name", .text)]
  | .str => [("value", .text)]
  | .num => [("value", .number)]
  | .bool => [("value", .flag)]
  | .arr => [("value", .nodes)]
  | .obj => [("value", .entries)]
  | .ident => [("name", .text)]
  | .namedType => [("name", .text), ("inner", .maybeNode)]
  | .fnType => [("args", .nodes), ("result", .node)]
  | .brk | .cont | .null | .other => []

namespace Fields

def node (fs : Fields) (name : String) : Except ShapeError Node :=
  match fs.lookup name with
  | some (.node n) => .ok n
  | _ => .error (.missingField name)

def maybeNode (fs : Fields) (name : String) : Option Node :=
  match fs.lookup name with
  | some (.maybeNode n) => n
  | _ => none

def nodes (fs : Fields) (name : String) : Except ShapeError (List Node) :=
  match fs.lookup name with
  | some (.nodes ns) => .ok ns
  | _ => .error (.missingField name)

def nodesOrNone (fs : Fields) (name : String) : List Node :=
  match fs.lookup name with
  | some (.nodes ns) => ns
  | _ => []

def text (fs : Fields) (name : String) : Except ShapeError String :=
  match fs.lookup name with
  | some (.text s) => .ok s
  | _ => .error (.missingField name)

def maybeText (fs : Fields) (name : String) : Option String :=
  match fs.lookup name with
  | some (.maybeText s) => s
  | _ => none

def flag (fs : Fields) (name : String) : Except ShapeError Bool :=
  match fs.lookup name with
  | some (.flag b) => .ok b
  | _ => .error (.missingField name)

def flagOrFalse (fs : Fields) (name : String) : Bool :=
  match fs.lookup name with
  | some (.flag b) => b
  | _ => false

def number (fs : Fields) (name : String) : Except ShapeError Binary64 :=
  match fs.lookup name with
  | some (.number x) => .ok x
  | _ => .error (.missingField name)

def branches (fs : Fields) (name : String) : List Branch :=
  match fs.lookup name with
  | some (.branches bs) => bs
  | _ => []

def params (fs : Fields) (name : String) : List Param :=
  match fs.lookup name with
  | some (.params ps) => ps
  | _ => []

def parts (fs : Fields) (name : String) : Except ShapeError (List Part) :=
  match fs.lookup name with
  | some (.parts ps) => .ok ps
  | _ => .error (.missingField name)

def entries (fs : Fields) (name : String) : Except ShapeError (List Entry) :=
  match fs.lookup name with
  | some (.entries es) => .ok es
  | _ => .error (.missingField name)

end Fields

/-- The kind that a tag and members make. Required members are asked for in a fixed order. -/
def Kind.ofFields (fs : Fields) : Tag → Except ShapeError Kind
  | .define => do
    return .define (← fs.text "name") (fs.maybeNode "varType") (← fs.node "expr")
      (fs.flagOrFalse "mut")
  | .assign => do return .assign (← fs.node "dest") (← fs.node "expr")
  | .addAssign => do return .adjust .add (← fs.node "dest") (← fs.node "expr")
  | .subAssign => do return .adjust .subtract (← fs.node "dest") (← fs.node "expr")
  | .ret => do return .ret (← fs.node "expr")
  | .forLoop => do
    return .forLoop (fs.maybeText "var") (fs.maybeNode "from") (fs.maybeNode "to")
      (fs.maybeNode "times") (← fs.node "for")
  | .eachLoop => do return .eachLoop (← fs.text "var") (← fs.node "items") (← fs.node "for")
  | .loop => do return .loop (← fs.nodes "statements")
  | .brk => return .brk
  | .cont => return .cont
  | .ns => do return .ns (← fs.text "name") (← fs.nodes "members")
  | .ifElse => do
    return .ifElse (← fs.node "cond") (← fs.node "then") (fs.branches "elseif")
      (fs.maybeNode "else")
  | .function =>
    return .function (fs.params "args") (fs.maybeNode "retType") (fs.nodesOrNone "children")
  | .select => do return .select (← fs.node "about") (fs.branches "qs") (fs.maybeNode "default")
  | .block => do return .block (← fs.nodes "statements")
  | .call => do return .call (← fs.node "target") (fs.nodesOrNone "args")
  | .not => do return .not (← fs.node "expr")
  | .and => do return .logic .and (← fs.node "left") (← fs.node "right")
  | .or => do return .logic .or (← fs.node "left") (← fs.node "right")
  | .template => do return .template (← fs.parts "tmpl")
  | .index => do return .index (← fs.node "target") (← fs.node "index")
  | .prop => do return .prop (← fs.node "target") (← fs.text "name")
  | .str => do return .str (← fs.text "value")
  | .num => do return .num (← fs.number "value")
  | .bool => do return .bool (← fs.flag "value")
  | .null => return .null
  | .arr => do return .arr (← fs.nodes "value")
  | .obj => do return .obj (← fs.entries "value")
  | .ident => do return .ident (← fs.text "name")
  | .namedType => do return .namedType (← fs.text "name") (fs.maybeNode "inner")
  | .fnType => do return .fnType (fs.nodesOrNone "args") (← fs.node "result")
  | .other => return .other

/-! Values -/

def Tag.ofJson : Json → Except ShapeError Tag
  | .string s => .ok (Tag.ofName s)
  | .number (.natural n) => .ok (Tag.ofNumber n.toNat)
  | _ => .error .unsuitable

def tagOf (seen : Option Tag) : List (String × Json) → Except ShapeError Tag
  | [] =>
    match seen with
    | some tag => .ok tag
    | none => .error (.missingField "type")
  | (key, j) :: rest =>
    if key = "type" then
      if seen.isSome then .error (.duplicateField "type")
      else do tagOf (some (← Tag.ofJson j)) rest
    else tagOf seen rest

def placeOf (seen : Option (Option Span)) : List (String × Json) → Except ShapeError (Option Span)
  | [] => .ok (seen.getD none)
  | (key, j) :: rest =>
    if key = "loc" then
      if seen.isSome then .error (.duplicateField "loc")
      else do placeOf (some (← locOf j)) rest
    else placeOf seen rest

def textOf : Json → Except ShapeError String
  | .string s => .ok s
  | _ => .error .unsuitable

def flagOf : Json → Except ShapeError Bool
  | .bool b => .ok b
  | _ => .error .unsuitable

def wordValue (n : UInt64) : Except ShapeError Binary64 :=
  match Binary64.ofDecimal? false n.toNat 0 with
  | some x => .ok x
  | none => .error .unsuitable

def numberOf : Json → Except ShapeError Binary64
  | .number (.natural n) => wordValue n
  | .number (.real x) => .ok x
  | _ => .error .unsuitable

def putEntry (key : String) (value : Node) : List Entry → List Entry
  | [] => [.mk key value]
  | .mk k v :: rest => if k = key then .mk k value :: rest else .mk k v :: putEntry key value rest

mutual
def Node.ofJson : Json → Except ShapeError Node
  | .object ms => do
    let loc ← placeOf none ms
    let tag ← tagOf none ms
    let fields ← fieldsOf tag.schema [] ms
    return .mk (← Kind.ofFields fields tag) loc
  | _ => .error .unsuitable

def fieldsOf (schema : List (String × Shape)) (seen : Fields) :
    List (String × Json) → Except ShapeError Fields
  | [] => .ok seen
  | (key, j) :: rest =>
    match schema.lookup key with
    | none => fieldsOf schema seen rest
    | some shape =>
      if (seen.lookup key).isSome then .error (.duplicateField key)
      else do
        let field ← match shape, j with
          | .node, j => .node <$> Node.ofJson j
          | .maybeNode, .null => .ok (.maybeNode none)
          | .maybeNode, j => (.maybeNode ∘ some) <$> Node.ofJson j
          | .nodes, .array js => .nodes <$> nodesOf js
          | .text, j => .text <$> textOf j
          | .maybeText, .null => .ok (.maybeText none)
          | .maybeText, j => (.maybeText ∘ some) <$> textOf j
          | .flag, j => .flag <$> flagOf j
          | .number, j => .number <$> numberOf j
          | .branches test body, .array js => .branches <$> branchesOf test body js
          | .params, .array js => .params <$> paramsOf js
          | .parts, .array js => .parts <$> partsOf js
          | .entries, .object ms => .entries <$> entriesOf [] ms
          | _, _ => .error .unsuitable
        fieldsOf schema (seen ++ [(key, field)]) rest

def nodesOf : List Json → Except ShapeError (List Node)
  | [] => .ok []
  | j :: rest => do return (← Node.ofJson j) :: (← nodesOf rest)

/-- Branches are objects, or the two nodes alone. -/
def branchesOf (test body : String) : List Json → Except ShapeError (List Branch)
  | [] => .ok []
  | j :: rest => do
    let branch ← match j with
      | .object ms => do
        let fs ← fieldsOf [(test, .node), (body, .node)] [] ms
        pure (Branch.mk (← fs.node test) (← fs.node body))
      | .array (a :: b :: extra) => do
        let t ← Node.ofJson a
        let b ← Node.ofJson b
        if extra.isEmpty then pure (Branch.mk t b) else .error .unsuitable
      | .array [a] => do
        let _ ← Node.ofJson a
        .error .unsuitable
      | _ => .error .unsuitable
    return branch :: (← branchesOf test body rest)

/-- Parameters are objects, or a name alone, or a name and a type alone. -/
def paramsOf : List Json → Except ShapeError (List Param)
  | [] => .ok []
  | j :: rest => do
    let param ← match j with
      | .object ms => do
        let fs ← fieldsOf [("name", .text), ("argType", .maybeNode)] [] ms
        pure (Param.mk (← fs.text "name") (fs.maybeNode "argType"))
      | .array [a] => do pure (Param.mk (← textOf a) none)
      | .array (a :: b :: extra) => do
        let name ← textOf a
        let declared ← match b with
          | .null => .ok none
          | b => some <$> Node.ofJson b
        if extra.isEmpty then pure (Param.mk name declared) else .error .unsuitable
      | _ => .error .unsuitable
    return param :: (← paramsOf rest)

def partsOf : List Json → Except ShapeError (List Part)
  | [] => .ok []
  | j :: rest => do
    let part ← match j with
      | .string s => .ok (Part.text s)
      | j =>
        match Node.ofJson j with
        | .ok n => .ok (Part.expr n)
        | .error _ => .error .unsuitable
    return part :: (← partsOf rest)

/-- A key that repeats keeps its first place and takes its last value. -/
def entriesOf (seen : List Entry) : List (String × Json) → Except ShapeError (List Entry)
  | [] => .ok seen
  | (key, j) :: rest => do entriesOf (putEntry key (← Node.ofJson j) seen) rest
end

/-! Outermost nodes -/

open Json (Reader)

def readOffset : Reader ShapeError UInt64 := fun cs =>
  match Json.skipSpace cs with
  | [] => .error .ended
  | c :: rest =>
    if c = '-' || c.isDigit then do
      match ← Json.readNumber (c :: rest) with
      | (.natural n, rest) => return (n, rest)
      | _ => .error (.refused .unsuitable)
    else Json.refuse .unsuitable (c :: rest)

/-- A member of a place that is being read. A repeated offset is refused at its key. -/
def readSpanMember (seen : PartialSpan) (key : String) : Reader ShapeError PartialSpan := fun cs =>
  if key = "start" then
    if seen.start.isSome then .error (.refused (.duplicateField "start"))
    else do
      let (n, rest) ← readOffset (← Json.colon cs)
      return ({ seen with start := some n }, rest)
  else if key = "end" then
    if seen.stop.isSome then .error (.refused (.duplicateField "end"))
    else do
      let (n, rest) ← readOffset (← Json.colon cs)
      return ({ seen with stop := some n }, rest)
  else do return (seen, ← Json.skim (← Json.colon cs))

/-- The next item of an array of known length. -/
def readNextOffset (first : Bool) : Reader ShapeError UInt64 := fun cs =>
  match Json.skipSpace cs with
  | [] => .error .ended
  | ']' :: _ => .error (.refused .unsuitable)
  | ',' :: rest =>
    if first then readOffset (',' :: rest)
    else match Json.skipSpace rest with
      | ']' :: _ => .error .malformed
      | rest => readOffset rest
  | cs => if first then readOffset cs else .error .malformed

def readLoc (depth : Nat) : Reader ShapeError (Option Span) := fun cs =>
  match Json.skipSpace cs with
  | [] => .error .ended
  | 'n' :: cs => do return (none, ← Json.keyword ['u', 'l', 'l'] cs)
  | '[' :: cs =>
    if depth = 0 then .error .malformed
    else do
      let (start, cs) ← readNextOffset true cs
      let (stop, cs) ← readNextOffset false cs
      match Json.skipSpace cs with
      | ']' :: rest => return (some ⟨start, stop⟩, rest)
      | [] => .error .ended
      | _ => .error .malformed
  | '{' :: cs =>
    if depth = 0 then .error .malformed
    else do
      let (seen, rest) ← Json.readMembers Json.readString readSpanMember ⟨none, none⟩ cs
      match seen.finish with
      | .ok span => return (some span, rest)
      | .error cause => .error (.refused cause)
  | cs => Json.refuse .unsuitable cs

structure Outer where
  loc : Option (Option Span)
  members : List (String × Json)

def readOuterMember (depth : Nat) (seen : Outer) (key : String) : Reader ShapeError Outer :=
  fun cs =>
    if key = "loc" then
      if seen.loc.isSome then .error (.refused (.duplicateField "loc"))
      else do
        let (loc, rest) ← readLoc depth (← Json.colon cs)
        return ({ seen with loc := some loc }, rest)
    else do
      let (j, rest) ← Json.readValue Json.strict depth (← Json.colon cs)
      return ({ seen with members := seen.members ++ [(key, j)] }, rest)

def Outer.toNode (o : Outer) : Except ShapeError Node := do
  let tag ← tagOf none o.members
  let fields ← fieldsOf tag.schema [] o.members
  return .mk (← Kind.ofFields fields tag) (o.loc.getD none)

def readNode (depth : Nat) : Reader ShapeError Node := fun cs =>
  match Json.skipSpace cs with
  | [] => .error .ended
  | '{' :: cs =>
    match depth with
    | 0 => .error .malformed
    | depth + 1 => do
      let (o, rest) ← Json.readMembers Json.readString (readOuterMember depth) ⟨none, []⟩ cs
      match o.toNode with
      | .ok n => return (n, rest)
      | .error cause => .error (.refused cause)
  | cs => Json.refuse .unsuitable cs

def readProgram (depth : Nat) : Reader ShapeError Program := fun cs =>
  match Json.skipSpace cs with
  | [] => .error .ended
  | '[' :: cs =>
    match depth with
    | 0 => .error .malformed
    | depth + 1 => Json.readItems (readNode depth) cs
  | cs => Json.refuse .unsuitable cs

def Program.parse (text : String) : Except LoadError Program :=
  Json.readWhole (readProgram Json.depthLimit) text

def Node.parse (text : String) : Except LoadError Node :=
  Json.readWhole (readNode Json.depthLimit) text

end ScriptCheck
