import ScriptCheck.Config.Loading
import ScriptCheck.Pattern.Files

/-! What a run of the command takes from outside: files, the search for files by pattern, and the
language of configurations. -/
namespace ScriptCheck.Command

structure Host (m : Type → Type) where
  read : String → m (Except FileError String)
  kind : String → m (Option FileKind)
  search : String → m (Except PatternError (List Found))
  write : String → String → m (Except FileError Unit)
  config : String → Except Config.LoadError Config

/-- A world with its states. To look at a state does not change it. -/
structure World (σ : Type) where
  read : σ → String → Except FileError String
  kind : σ → String → Option FileKind
  search : σ → String → Except PatternError (List Found)
  /-- Writing may change the state even if it fails. -/
  write : σ → String → String → Except FileError Unit × σ
  config : String → Except Config.LoadError Config

namespace World

variable {σ : Type}

def host (w : World σ) : Host (StateM σ) where
  read path := return w.read (← get) path
  kind path := return w.kind (← get) path
  search text := return w.search (← get) text
  write path content := fun s => w.write s path content
  config := w.config

theorem run_read (w : World σ) (s : σ) (path : String) :
    (w.host.read path).run s = (w.read s path, s) := rfl

theorem run_kind (w : World σ) (s : σ) (path : String) :
    (w.host.kind path).run s = (w.kind s path, s) := rfl

theorem run_search (w : World σ) (s : σ) (text : String) :
    (w.host.search text).run s = (w.search s text, s) := rfl

theorem run_write (w : World σ) (s : σ) (path content : String) :
    (w.host.write path content).run s = w.write s path content := rfl

end World

def memory : World FileTree where
  read := FileTree.read
  kind := FileTree.kind
  search t := t.system.search
  write t path content :=
    match t.write path content with
    | .ok t' => (.ok (), t')
    | .error e => (.error e, t)
  config := Config.parse

end ScriptCheck.Command
