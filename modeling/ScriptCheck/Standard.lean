import ScriptCheck.Scope.Basic

/-! The standard scope: everything that a host offers to a script before it runs. -/
namespace ScriptCheck.Standard

def types : Bindings := Ty.builtin.map fun name => (name, .name name)

def vars : Bindings := [
  ("Core:v", .str),
  ("Core:ai", .str),
  ("Core:add", .signature [.num, .num] .num),
  ("Core:sub", .signature [.num, .num] .num),
  ("Core:mul", .signature [.num, .num] .num),
  ("Core:div", .signature [.num, .num] .num),
  ("Core:pow", .signature [.num, .num] .num),
  ("Core:mod", .signature [.num, .num] .num),
  ("Core:eq", .signature [.any, .any] .bool),
  ("Core:neq", .signature [.any, .any] .bool),
  ("Core:and", .signature [.bool, .bool] .bool),
  ("Core:or", .signature [.bool, .bool] .bool),
  ("Core:not", .signature [.bool] .bool),
  ("Core:gt", .signature [.num, .num] .bool),
  ("Core:lt", .signature [.num, .num] .bool),
  ("Core:gteq", .signature [.num, .num] .bool),
  ("Core:lteq", .signature [.num, .num] .bool),
  ("Core:type", .signature [.any] .str),
  ("Core:to_str", .signature [.any] .str),
  ("Core:range", .signature [.num, .num] .arr),
  ("Core:sleep", .signature [.num] .null),
  ("Util:uuid", .signature [] .str),
  ("Json:stringify", .signature [.any] .str),
  ("Json:parse", .signature [.str] .any),
  ("Json:parsable", .signature [.str] .bool),
  ("Date:now", .signature [] .num),
  ("Date:year", .variadic .num),
  ("Date:month", .variadic .num),
  ("Date:day", .variadic .num),
  ("Date:hour", .variadic .num),
  ("Date:minute", .variadic .num),
  ("Date:second", .variadic .num),
  ("Date:parse", .signature [.str] .num),
  ("Math:Infinity", .num),
  ("Math:E", .num),
  ("Math:LN2", .num),
  ("Math:LN10", .num),
  ("Math:LOG2E", .num),
  ("Math:LOG10E", .num),
  ("Math:PI", .num),
  ("Math:SQRT1_2", .num),
  ("Math:SQRT2", .num),
  ("Math:abs", .signature [.num] .num),
  ("Math:ceil", .signature [.num] .num),
  ("Math:floor", .signature [.num] .num),
  ("Math:round", .signature [.num] .num),
  ("Math:sign", .signature [.num] .num),
  ("Math:sqrt", .signature [.num] .num),
  ("Math:cbrt", .signature [.num] .num),
  ("Math:exp", .signature [.num] .num),
  ("Math:log", .signature [.num] .num),
  ("Math:log2", .signature [.num] .num),
  ("Math:log10", .signature [.num] .num),
  ("Math:sin", .signature [.num] .num),
  ("Math:cos", .signature [.num] .num),
  ("Math:tan", .signature [.num] .num),
  ("Math:atan2", .signature [.num, .num] .num),
  ("Math:hypot", .variadic .num),
  ("Math:max", .signature [.num, .num] .num),
  ("Math:min", .signature [.num, .num] .num),
  ("Math:rnd", .variadic .num),
  ("Math:gen_rng", .signature [.any] (.variadic .num)),
  ("Num:from_hex", .signature [.str] .num),
  ("Str:lf", .str),
  ("Str:lt", .signature [.str, .str] .bool),
  ("Str:gt", .signature [.str, .str] .bool),
  ("Str:from_codepoint", .signature [.num] .str),
  ("Obj:keys", .signature [.obj] .arr),
  ("Obj:vals", .signature [.obj] .arr),
  ("Obj:kvs", .signature [.obj] .arr),
  ("Obj:get", .signature [.obj, .str] .any),
  ("Obj:set", .signature [.obj, .str, .any] .null),
  ("Obj:has", .signature [.obj, .str] .bool),
  ("Obj:copy", .signature [.obj] .obj),
  ("Obj:merge", .signature [.obj, .obj] .obj),
  ("Arr:create", .variadic .arr),
  ("print", .variadic .null),
  ("readline", .signature [.str] .str)
]

def scope : Scope := { vars, types }

end ScriptCheck.Standard
