import ScriptCheck.Config.Basic
import ScriptCheck.Yaml.Text

/-! Writing a configuration. Every key is written, in a fixed order. -/
namespace ScriptCheck.Config

def boolText (b : Bool) : String := if b then "true" else "false"

def mappingText (key : String) : List (String × String) → String
  | [] => key ++ ": {}\n"
  | entries =>
    key ++ ":\n" ++ String.join (entries.map fun (name, text) => Yaml.writeEntry 2 name text)

def listText (key : String) : List String → String
  | [] => key ++ ": []\n"
  | items => key ++ ":\n" ++ String.join (items.map Yaml.writeItem)

def text (c : Config) : String :=
  "compilerOptions:\n" ++
  "  stdlib: " ++ boolText c.stdlib ++ "\n" ++
  "  pretty: " ++ boolText c.pretty ++ "\n" ++
  "  format: " ++ c.format.name ++ "\n" ++
  mappingText "globals" c.globals ++
  mappingText "types" c.types ++
  listText "include" c.included ++
  listText "exclude" c.excluded

end ScriptCheck.Config
