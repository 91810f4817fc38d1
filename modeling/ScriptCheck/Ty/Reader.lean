import ScriptCheck.Ty.Basic
import ScriptCheck.Ty.Token

/-! Reading type expressions.

    type   := member ('|' member)*
    member := name
            | '[' (type (',' type)*)? ']'
            | '@' '(' ('...' name | (type (',' type)*)?) ')' ':' type
            | '(' type ')'

The reader goes through the words once, with a stack of the constructs that are still open, so
every word either leads to a next state or is the first at which the text cannot be a type. A
function's result takes every member that follows it. -/
namespace ScriptCheck.Ty

inductive Fault where
  | unexpectedCharacter (c : Char)
  | unexpectedEnd
  | expectedMark (c : Char)
  | expectedName
  | trailingInput
  deriving DecidableEq

def Fault.message : Fault → String
  | .unexpectedCharacter c => "unexpected character '" ++ c.toString ++ "'"
  | .unexpectedEnd => "unexpected end of type expression"
  | .expectedMark c => "expected '" ++ c.toString ++ "'"
  | .expectedName => "expected a type name"
  | .trailingInput => "unexpected trailing input"

/-- What is wrong with a type expression, and the byte offset of the word where it shows. -/
structure SyntaxError where
  fault : Fault
  offset : Nat
  deriving DecidableEq

def SyntaxError.message (e : SyntaxError) : String :=
  e.fault.message ++ " at offset " ++ toString e.offset

inductive Opening where
  | group
  | tuple (items : List Ty)
  | params (items : List Ty)
  | result (params : Ty)

/-- An open construct, and the members that stand before it in the type it belongs to. -/
structure Frame where
  opening : Opening
  earlier : List Ty

inductive Phase where
  | member
  | itemOrBracket
  | paren
  | paramsOrRest
  | restName
  | restEnd (name : List Char)
  | colon (params : Ty)
  | after (t : Ty)

/-- `earlier` are the finished members of the type being read. -/
structure Progress where
  phase : Phase
  earlier : List Ty
  stack : List Frame

def start : Progress := ⟨.member, [], []⟩

def ofMembers : List Ty → Ty → Ty
  | [], last => last
  | earlier, last => .union (earlier ++ [last])

def beginMember (next : Token) (earlier : List Ty) (stack : List Frame) : Except Fault Progress :=
  match next with
  | .name chars => .ok ⟨.after (.name (String.ofList chars)), earlier, stack⟩
  | .mark '@' => .ok ⟨.paren, earlier, stack⟩
  | .mark '[' => .ok ⟨.itemOrBracket, earlier, stack⟩
  | .mark '(' => .ok ⟨.member, [], ⟨.group, earlier⟩ :: stack⟩
  | .mark c => .error (.unexpectedCharacter c)
  | .ellipsis => .error (.unexpectedCharacter '.')

/-- The type with these members ends before the word `next`, which closes or continues the
innermost open construct. -/
def endType (next : Token) (earlier : List Ty) (last : Ty) : List Frame → Except Fault Progress
  | [] => .error .trailingInput
  | ⟨.group, outer⟩ :: stack =>
    if next = .mark ')' then .ok ⟨.after (ofMembers earlier last), outer, stack⟩
    else .error (.expectedMark ')')
  | ⟨.tuple items, outer⟩ :: stack =>
    let items := items ++ [ofMembers earlier last]
    if next = .mark ',' then .ok ⟨.member, [], ⟨.tuple items, outer⟩ :: stack⟩
    else if next = .mark ']' then .ok ⟨.after (.tuple items), outer, stack⟩
    else .error (.expectedMark ']')
  | ⟨.params items, outer⟩ :: stack =>
    let items := items ++ [ofMembers earlier last]
    if next = .mark ',' then .ok ⟨.member, [], ⟨.params items, outer⟩ :: stack⟩
    else if next = .mark ')' then .ok ⟨.colon (.tuple items), outer, stack⟩
    else .error (.expectedMark ')')
  | ⟨.result params, outer⟩ :: stack =>
    endType next outer (.function params (ofMembers earlier last)) stack

/-- The text ends behind the type with these members: only results may still be open. -/
def endText (earlier : List Ty) (last : Ty) : List Frame → Except Fault Ty
  | [] => .ok (ofMembers earlier last)
  | ⟨.group, _⟩ :: _ | ⟨.params _, _⟩ :: _ => .error (.expectedMark ')')
  | ⟨.tuple _, _⟩ :: _ => .error (.expectedMark ']')
  | ⟨.result params, outer⟩ :: stack =>
    endText outer (.function params (ofMembers earlier last)) stack

def Progress.step (p : Progress) (next : Token) : Except Fault Progress :=
  match p.phase with
  | .member => beginMember next p.earlier p.stack
  | .itemOrBracket =>
    if next = .mark ']' then .ok { p with phase := .after (.tuple []) }
    else beginMember next [] (⟨.tuple [], p.earlier⟩ :: p.stack)
  | .paren =>
    if next = .mark '(' then .ok { p with phase := .paramsOrRest }
    else .error (.expectedMark '(')
  | .paramsOrRest =>
    if next = .ellipsis then .ok { p with phase := .restName }
    else if next = .mark ')' then .ok { p with phase := .colon (.tuple []) }
    else beginMember next [] (⟨.params [], p.earlier⟩ :: p.stack)
  | .restName =>
    match next with
    | .name chars => .ok { p with phase := .restEnd chars }
    | _ => .error .expectedName
  | .restEnd chars =>
    if next = .mark ')' then .ok { p with phase := .colon (.name (String.ofList chars)) }
    else .error (.expectedMark ')')
  | .colon params =>
    if next = .mark ':' then .ok ⟨.member, [], ⟨.result params, p.earlier⟩ :: p.stack⟩
    else .error (.expectedMark ':')
  | .after t =>
    if next = .mark '|' then .ok ⟨.member, p.earlier ++ [t], p.stack⟩
    else endType next p.earlier t p.stack

def Progress.finish (p : Progress) : Except Fault Ty :=
  match p.phase with
  | .member | .itemOrBracket | .paramsOrRest => .error .unexpectedEnd
  | .paren => .error (.expectedMark '(')
  | .restName => .error .expectedName
  | .restEnd _ => .error (.expectedMark ')')
  | .colon _ => .error (.expectedMark ':')
  | .after t => endText p.earlier t p.stack

def Progress.run (stop : Nat) (p : Progress) : List Lexeme → Except SyntaxError Ty
  | [] =>
    match p.finish with
    | .ok t => .ok t
    | .error fault => .error ⟨fault, stop⟩
  | l :: rest =>
    match p.step l.token with
    | .ok p => run stop p rest
    | .error fault => .error ⟨fault, l.offset⟩

def parse (text : String) : Except SyntaxError Ty :=
  start.run text.utf8ByteSize (scan 0 text.toList)

end ScriptCheck.Ty
