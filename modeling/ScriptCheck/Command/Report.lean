import ScriptCheck.Diagnostic.Rendering
import ScriptCheck.Tree.Text

/-! Reports on checked files: as text for people, with the source lines where there is a source, or
as JSON for programs. -/
namespace ScriptCheck.Command

structure Report where
  path : String
  source : Option String
  diagnostics : List Diagnostic

namespace Report

def isClean (r : Report) : Bool := r.diagnostics.isEmpty

def showOverSource (path : String) (source : Source) (pretty : Bool) (d : Diagnostic) : String :=
  let place := source.position d.location.start.toNat
  path ++ ":" ++ toString place.line ++ ":" ++ toString place.column ++ "\n" ++
    Rendering.render pretty source d.message d.location ++ "\n"

def showBare (path : String) (d : Diagnostic) : String := path ++ ": " ++ d.text ++ "\n"

def text (pretty : Bool) (r : Report) : String :=
  match r.source with
  | some s => String.join (r.diagnostics.map (showOverSource r.path (Source.ofString s) pretty))
  | none => String.join (r.diagnostics.map (showBare r.path))

def diagnosticJson (d : Diagnostic) : Json :=
  .object [("message", .string d.message), ("location", d.location.toJson)]

def toJson (r : Report) : Json :=
  .object [("file", .string r.path), ("diagnostics", .array (r.diagnostics.map diagnosticJson))]

end Report

def problemCount (reports : List Report) : Nat :=
  (reports.map fun r => r.diagnostics.length).foldr (· + ·) 0

def failedCount (reports : List Report) : Nat := (reports.filter fun r => !r.isClean).length

def summary (reports : List Report) : String :=
  if problemCount reports = 0 then ""
  else "Found " ++ toString (problemCount reports) ++ " error(s) in " ++
    toString (failedCount reports) ++ " file(s)\n"

def textOfReports (pretty : Bool) (reports : List Report) : String :=
  String.join (reports.map (Report.text pretty)) ++ summary reports

/-- One entry for each file, clean ones included. -/
def jsonOfReports (reports : List Report) : String :=
  (Json.array (reports.map Report.toJson)).indented 0 ++ "\n"

end ScriptCheck.Command
