import ScriptCheck.Number.Binary64

/-! JSON values. Members of an object are a list: their order matters, and a key may repeat. A
number whose text is a whole number below 2^64 without sign, point or exponent is kept as a word;
any other is kept as a double. -/
namespace ScriptCheck

namespace Json

inductive Number where
  | natural (n : UInt64)
  | real (x : Binary64)
  deriving DecidableEq

end Json

inductive Json where
  | null
  | bool (b : Bool)
  | number (n : Json.Number)
  | string (s : String)
  | array (items : List Json)
  | object (members : List (String × Json))

end ScriptCheck
