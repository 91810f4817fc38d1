import ScriptCheck.Checker
import ScriptCheck.Command.Arguments
import ScriptCheck.Command.Host
import ScriptCheck.Command.Report
import ScriptCheck.Config.Text
import ScriptCheck.Tree.Loading

/-! A run of the command. Nothing is reported before every file has been checked, so a run either
fails as a whole or reports on all its files. -/
namespace ScriptCheck.Command

def configName : String := "aitype.yaml"

inductive RunError where
  | alreadyConfigured
  | notCreated (cause : FileError)
  | configUnreadable (named : Option String) (cause : FileError)
  | configInvalid (named : Option String) (cause : Config.LoadError)
  | badExclude (cause : PatternError)
  | badInclude (pattern : String) (cause : PatternError)
  | unsearchable (cause : SearchError)
  | noInput
  | sourceForSeveral
  | badType (cause : TypeEntryError)
  | unreadable (path : String) (cause : FileError)
  | unloadable (path : String) (cause : LoadError)

def loading : Option String → String
  | some path => "Failed to load config file " ++ path
  | none => "Failed to load " ++ configName

/-- What was being done, then what went wrong, from the outside to the inside. A cause that the text
before it quotes already is named again. -/
def RunError.chain : RunError → List String
  | .alreadyConfigured => [configName ++ " already exists"]
  | .notCreated cause =>
    ["Failed to write " ++ configName, "IO error: " ++ cause.message, cause.message]
  | .configUnreadable named cause =>
    [loading named, "IO error: " ++ cause.message, cause.message]
  | .configInvalid named cause =>
    [loading named, "Invalid configuration: " ++ cause.message, cause.message]
  | .badExclude cause => ["Invalid exclude pattern", cause.message]
  | .badInclude pattern cause => ["Invalid include pattern '" ++ pattern ++ "'", cause.message]
  | .unsearchable cause => [cause.message]
  | .noInput => ["No input files specified. Use --help for usage information."]
  | .sourceForSeveral => ["--source can only be used with a single input file"]
  | .badType cause => ["Failed to build the root scope", cause.message, cause.cause.message]
  | .unreadable path cause => ["Failed to read " ++ path, cause.message]
  | .unloadable path cause =>
    ["Failed to load " ++ path, "Invalid syntax tree: " ++ cause.message, cause.message]

def RunError.message (e : RunError) : String := ": ".intercalate e.chain

structure Outcome where
  status : Nat
  stdout : String := ""
  stderr : String := ""

def versionText : String := "aitype 0.1.0\n"

def usage : String := "Usage: aitype [OPTIONS] [FILE]...\n"

def helpText : String :=
  "aitype - static type checker for AiScript syntax trees\n\n" ++ usage ++ "\n" ++
  "Arguments:\n" ++
  "  [FILE]...  Syntax-tree JSON files to check\n\n" ++
  "Options:\n" ++
  "  -p, --project <FILE>   Path to aitype.yaml configuration file\n" ++
  "      --source <FILE>    Script source used to show diagnostic context (single input only)\n" ++
  "      --format <FORMAT>  Diagnostic output format [possible values: text, json]\n" ++
  "      --no-pretty        Print diagnostics without colors\n" ++
  "      --no-stdlib        Start from an empty scope instead of the standard library\n" ++
  "      --init             Write a default aitype.yaml to the current directory\n" ++
  "  -h, --help             Print help\n" ++
  "  -V, --version          Print version\n"

namespace Outcome

def ofError (e : RunError) : Outcome :=
  { status := 2, stderr := "Error: " ++ e.message ++ "\n" }

def ofReports (c : Config) (reports : List Report) : Outcome :=
  let status := if reports.all Report.isClean then 0 else 1
  match c.format with
  | .text => { status, stderr := textOfReports c.pretty reports }
  | .json => { status, stdout := jsonOfReports reports }

def ofArgumentError (e : ArgumentError) : Outcome :=
  { status := 2,
    stderr := "error: " ++ e.message ++ "\n\n" ++ usage ++
      "\nFor more information, try '--help'.\n" }

end Outcome

section
variable {m : Type → Type} [Monad m]

def readConfig (h : Host m) (path : String) (named : Option String) :
    ExceptT RunError m Config := do
  match ← h.read path with
  | .error cause => throw (.configUnreadable named cause)
  | .ok text =>
    match h.config text with
    | .error cause => throw (.configInvalid named cause)
    | .ok c => return c

def loadConfig (h : Host m) (o : Options) : ExceptT RunError m Config := do
  match o.project with
  | some path => readConfig h path (some path)
  | none =>
    match ← h.kind configName with
    | some _ => readConfig h configName none
    | none => return {}

def Options.overrides (o : Options) : Overrides where
  stdlib := if o.noStdlib then some false else none
  pretty := if o.noPretty then some false else none
  format := o.format

def Options.base (o : Options) : String := (o.project.bind Path.parent?).getD ""

/-- The files among what a search has found, less those to leave out. The first directory that could
not be read ends the run. -/
def keepFiles (h : Host m) (base : String) (excluded : List Pattern) :
    List Found → ExceptT RunError m (List String)
  | [] => return []
  | .error cause :: _ => throw (.unsearchable cause)
  | .ok path :: rest => do
    let kind ← h.kind path
    let more ← keepFiles h base excluded rest
    if kind = some .file && !excluded.any fun p => p.accepting (Path.relative base path) then
      return path :: more
    else return more

def findAll (h : Host m) (base : String) (excluded : List Pattern) :
    List String → ExceptT RunError m (List String)
  | [] => return []
  | pattern :: rest => do
    match ← h.search (Path.join base pattern) with
    | .error cause => throw (.badInclude pattern cause)
    | .ok found =>
      let files ← keepFiles h base excluded found
      return files ++ (← findAll h base excluded rest)

/-- The files to check: those named, or else those that the configuration selects. -/
def inputs (h : Host m) (o : Options) (c : Config) : ExceptT RunError m (List String) := do
  if o.files ≠ [] then return o.files
  match c.excluded.mapM Pattern.parse with
  | .error cause => throw (.badExclude cause)
  | .ok excluded => return Path.sorted (← findAll h o.base excluded c.included)

/-- The source beside a tree: the tree's path less its ending. -/
def sourcePath? (path : String) : Option String :=
  let cs := path.toList
  let ending := ".json".toList
  if ending.isSuffixOf cs then some (String.ofList (cs.take (cs.length - ending.length))) else none

def findSource (h : Host m) (path : String) : m (Option String) := do
  match sourcePath? path with
  | none => return none
  | some source =>
    match ← h.kind source with
    | some .file => return (← h.read source).toOption
    | _ => return none

/-- The source to show with a file: the one named, which has to be there, or one beside the file. -/
def sourceOf (h : Host m) (named : Option String) (path : String) :
    ExceptT RunError m (Option String) := do
  match named with
  | none => ExceptT.lift (findSource h path)
  | some named =>
    match ← h.read named with
    | .error cause => throw (.unreadable named cause)
    | .ok text => return some text

def checkFile (h : Host m) (source : Option String) (root : Scope) (path : String) :
    ExceptT RunError m Report := do
  match ← h.read path with
  | .error cause => throw (.unreadable path cause)
  | .ok text =>
    match Program.parse text with
    | .error cause => throw (.unloadable path cause)
    | .ok program => return ⟨path, ← sourceOf h source path, program.check root⟩

def checkFiles (h : Host m) (source : Option String) (root : Scope) :
    List String → ExceptT RunError m (List Report)
  | [] => return []
  | path :: rest => do
    let report ← checkFile h source root path
    return report :: (← checkFiles h source root rest)

def inspect (h : Host m) (o : Options) : ExceptT RunError m (Config × List Report) := do
  let c := (← loadConfig h o).override o.overrides
  let files ← inputs h o c
  if files.isEmpty then throw .noInput
  if o.source.isSome && files.length > 1 then throw .sourceForSeveral
  match c.rootScope with
  | .error cause => throw (.badType cause)
  | .ok root => return (c, ← checkFiles h o.source root files)

def createConfig (h : Host m) : ExceptT RunError m Unit := do
  match ← h.kind configName with
  | some _ => throw .alreadyConfigured
  | none =>
    match ← h.write configName (Config.text {}) with
    | .error cause => throw (.notCreated cause)
    | .ok () => return ()

def execute (h : Host m) (o : Options) : m Outcome := do
  if o.init then
    match ← (createConfig h).run with
    | .error e => return .ofError e
    | .ok () => return { status := 0, stdout := "Created " ++ configName ++ "\n" }
  else
    match ← (inspect h o).run with
    | .error e => return .ofError e
    | .ok (c, reports) => return .ofReports c reports

def run (h : Host m) (args : List String) : m Outcome :=
  match parse args with
  | .error e => return .ofArgumentError e
  | .ok .help => return { status := 0, stdout := helpText }
  | .ok .version => return { status := 0, stdout := versionText }
  | .ok (.run o) => execute h o

end
end ScriptCheck.Command
