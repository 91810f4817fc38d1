import ScriptCheck.Ty.Basic

/-! The text of a type, as it stands in messages: names as they are, tuples in brackets, union
members divided by bars, functions as their parameter list and result. -/
namespace ScriptCheck.Ty

mutual
def text : Ty → String
  | .name n => if n = "" then "<unknown>" else n
  | .tuple items => "[" ++ joined ", " items ++ "]"
  | .union members => joined " | " members
  | .function (.tuple params) result => "@(" ++ joined ", " params ++ "): " ++ text result
  | .function _ result => "@(...any): " ++ text result

def joined (divider : String) : List Ty → String
  | [] => ""
  | [t] => text t
  | t :: u :: rest => text t ++ divider ++ joined divider (u :: rest)
end

end ScriptCheck.Ty
