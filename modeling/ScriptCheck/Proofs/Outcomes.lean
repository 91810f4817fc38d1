import Mathlib.Tactic.Common
import ScriptCheck.Command.Run
import ScriptCheck.Proofs.Layers
import ScriptCheck.Proofs.Reports

/-! What a run of the command ends in. A run has a fault, such as a configuration that does not load
or an input that is no program, or it is a session with a root scope and with a program for each
input. With a fault it fails as a whole, whatever else was found; without one it reports what the
checks of the programs found, each alone. A directory that cannot be read where files are searched
for ends a run as a fault does, even if the session has all its inputs. -/
namespace ScriptCheck.Command

section

variable {σ : Type} (w : World σ) (s : σ) (o : Options)

inductive ConfigFile : String → Option String → Prop where
  | named {path : String} (given : o.project = some path) : ConfigFile path (some path)
  | usual (unnamed : o.project = none) (there : w.kind s configName ≠ none) :
    ConfigFile configName none

inductive Configured : Config → Prop where
  | loaded {path text : String} {named : Option String} {c : Config}
      (file : ConfigFile w s o path named) (read : w.read s path = .ok text)
      (valid : w.config text = .ok c) : Configured (c.override o.overrides)
  | default (unnamed : o.project = none) (absent : w.kind s configName = none) :
    Configured (Config.override {} o.overrides)

def kept (excluded : List Pattern) (found : List Found) : List String :=
  (found.filterMap Except.toOption).filter fun path =>
    w.kind s path = some .file && !excluded.any fun p => p.accepting (Path.relative o.base path)

inductive Selected (c : Config) : List String → Prop where
  | named (given : o.files ≠ []) : Selected c o.files
  | found {excluded : List Pattern} {searches : List (List Found)} (unnamed : o.files = [])
      (left : c.excluded.mapM Pattern.parse = .ok excluded)
      (taken : c.included.mapM (fun text => w.search s (Path.join o.base text)) = .ok searches) :
    Selected c (Path.sorted (searches.flatMap (kept w s o excluded)))

/-- What can be wrong with a run, each with the error that names it. -/
inductive Fault : RunError → Prop where
  | configUnreadable {path : String} {named : Option String} {cause : FileError}
      (file : ConfigFile w s o path named) (read : w.read s path = .error cause) :
    Fault (.configUnreadable named cause)
  | configInvalid {path text : String} {named : Option String} {cause : Config.LoadError}
      (file : ConfigFile w s o path named) (read : w.read s path = .ok text)
      (invalid : w.config text = .error cause) : Fault (.configInvalid named cause)
  | badExclude {c : Config} {text : String} {cause : PatternError} (config : Configured w s o c)
      (unnamed : o.files = []) (listed : text ∈ c.excluded)
      (invalid : Pattern.parse text = .error cause) : Fault (.badExclude cause)
  | badInclude {c : Config} {text : String} {cause : PatternError} (config : Configured w s o c)
      (unnamed : o.files = []) (listed : text ∈ c.included)
      (invalid : w.search s (Path.join o.base text) = .error cause) :
    Fault (.badInclude text cause)
  | noInput {c : Config} (config : Configured w s o c) (nothing : Selected w s o c []) :
    Fault .noInput
  | sourceForSeveral {c : Config} {files : List String} (config : Configured w s o c)
      (inputs : Selected w s o c files) (given : o.source ≠ none) (several : 1 < files.length) :
    Fault .sourceForSeveral
  | badType {c : Config} {name text : String} {cause : Ty.SyntaxError}
      (config : Configured w s o c) (listed : (name, text) ∈ c.types ++ c.globals)
      (invalid : Ty.parse text = .error cause) : Fault (.badType ⟨name, text, cause⟩)
  | sourceUnreadable {path : String} {cause : FileError} (given : o.source = some path)
      (read : w.read s path = .error cause) : Fault (.unreadable path cause)
  | unreadable {c : Config} {files : List String} {path : String} {cause : FileError}
      (config : Configured w s o c) (inputs : Selected w s o c files) (listed : path ∈ files)
      (read : w.read s path = .error cause) : Fault (.unreadable path cause)
  | unloadable {c : Config} {files : List String} {path text : String} {cause : LoadError}
      (config : Configured w s o c) (inputs : Selected w s o c files) (listed : path ∈ files)
      (read : w.read s path = .ok text) (invalid : Program.parse text = .error cause) :
    Fault (.unloadable path cause)

/-- A directory in which files are searched for cannot be read. -/
inductive Blocked : SearchError → Prop where
  | intro {c : Config} {text : String} {found : List Found} {cause : SearchError}
      (config : Configured w s o c) (unnamed : o.files = []) (listed : text ∈ c.included)
      (search : w.search s (Path.join o.base text) = .ok found) (unread : .error cause ∈ found) :
    Blocked cause

inductive Failure : RunError → Prop where
  | fault {e : RunError} (fault : Fault w s o e) : Failure e
  | blocked {cause : SearchError} (blocked : Blocked w s o cause) :
    Failure (.unsearchable cause)

def Holds (file : String × Program) : Prop :=
  ∃ text, w.read s file.1 = .ok text ∧ Program.parse text = .ok file.2

structure Session where
  config : Config
  configured : Configured w s o config
  root : Scope
  rooted : config.rootScope = .ok root
  /-- The inputs in their order, with their programs. -/
  files : List (String × Program)
  inputs : Selected w s o config (files.map Prod.fst)
  nonempty : files ≠ []
  loaded : ∀ file ∈ files, Holds w s file
  single : o.source ≠ none → files.length ≤ 1
  sourced : ∀ path, o.source = some path → ∃ text, w.read s path = .ok text

end

variable {σ : Type} {w : World σ} {s : σ} {o : Options} {e : RunError}

def Session.findings (session : Session w s o) : List (String × List Diagnostic) :=
  session.files.map fun file => (file.1, file.2.check session.root)

def Session.Clean (session : Session w s o) : Prop :=
  ∀ file ∈ session.files, file.2.check session.root = []

/-! There is one configuration and one list of inputs. -/

theorem ConfigFile.unique {path path' : String} {named named' : Option String}
    (first : ConfigFile w s o path named) (second : ConfigFile w s o path' named') :
    path = path' ∧ named = named' := by
  cases first <;> cases second <;> simp_all

theorem ConfigFile.not_default {path : String} {named : Option String}
    (file : ConfigFile w s o path named) (unnamed : o.project = none) :
    w.kind s configName ≠ none := by
  cases file with
  | named given => simp [unnamed] at given
  | usual _ there => exact there

theorem Configured.unique {c c' : Config} (first : Configured w s o c)
    (second : Configured w s o c') : c = c' := by
  cases first with
  | loaded file read valid =>
    cases second with
    | loaded file' read' valid' =>
      obtain ⟨rfl, rfl⟩ := file.unique file'
      obtain rfl := Except.ok.inj (read.symm.trans read')
      obtain rfl := Except.ok.inj (valid.symm.trans valid')
      rfl
    | default unnamed absent => exact absurd absent (file.not_default unnamed)
  | default unnamed absent =>
    cases second with
    | loaded file => exact absurd absent (file.not_default unnamed)
    | default => rfl

theorem Selected.unique {c : Config} {files files' : List String} (first : Selected w s o c files)
    (second : Selected w s o c files') : files = files' := by
  cases first with
  | named given =>
    cases second with
    | named => rfl
    | found unnamed => exact absurd unnamed given
  | found unnamed left taken =>
    cases second with
    | named given => exact absurd unnamed given
    | found _ left' taken' =>
      obtain rfl := Except.ok.inj (left.symm.trans left')
      obtain rfl := Except.ok.inj (taken.symm.trans taken')
      rfl

/-! Stages. None of them changes the state. -/

theorem mapM_result {ε α β : Type} (f : α → Except ε β) (xs : List α) :
    match xs.mapM f with
    | .ok _ => ∀ x ∈ xs, ∃ y, f x = .ok y
    | .error e => ∃ x ∈ xs, f x = .error e := by
  induction xs with
  | nil => exact fun x there => nomatch there
  | cons x rest ih =>
    rw [List.mapM_cons]
    cases first : f x with
    | error e => exact ⟨x, List.mem_cons_self, first⟩
    | ok y =>
      generalize rest.mapM f = others at ih ⊢
      cases others with
      | error e =>
        obtain ⟨z, there, failed⟩ := ih
        exact ⟨z, List.mem_cons_of_mem x there, failed⟩
      | ok ys => exact List.forall_mem_cons.mpr ⟨⟨y, first⟩, ih⟩

section

variable {α β : Type} {x : ExceptT RunError (StateM σ) α} {f : α → ExceptT RunError (StateM σ) β}
  {answer : β → Prop} {middle : α → Prop} {fault : RunError → Prop}

/-- An answer is as the first says, an error as the second, and the state is what it was. -/
inductive Ends (x : ExceptT RunError (StateM σ) α) (s : σ) (answer : α → Prop)
    (fault : RunError → Prop) : Prop where
  | ok {a : α} (same : x.run.run s = (.ok a, s)) (holds : answer a)
  | error {e : RunError} (same : x.run.run s = (.error e, s)) (holds : fault e)

theorem ends_pure {a : β} (holds : answer a) : Ends (pure a) s answer fault := .ok rfl holds

theorem ends_throw (holds : fault e) : Ends (throw e) s answer fault := .error rfl holds

theorem ends_throw_bind (holds : fault e) : Ends (throw e >>= f) s answer fault := .error rfl holds

theorem run_bind_ok {a : α} {s' : σ} (same : x.run.run s = (.ok a, s')) :
    (x >>= f).run.run s = (f a).run.run s' := by
  rw [ExceptT.run_bind, StateT.run_bind, same]
  rfl

theorem run_lift {x : StateM σ α} {a : α} {s' : σ} (seen : x.run s = (a, s')) :
    (ExceptT.lift x : ExceptT RunError (StateM σ) α).run.run s = (.ok a, s') := by
  rw [ExceptT.run_lift, StateT.run_map, seen]
  rfl

theorem run_lift_bind {x : StateM σ α} {a : α} {s' : σ} (seen : x.run s = (a, s')) :
    (liftM x >>= f).run.run s = (f a).run.run s' :=
  run_bind_ok (run_lift seen)

theorem ends_lift {x : StateM σ β} {a : β} (seen : x.run s = (a, s)) (holds : answer a) :
    Ends (ExceptT.lift x) s answer fault := .ok (run_lift seen) holds

theorem Ends.bind (first : Ends x s middle fault)
    (next : ∀ a, middle a → Ends (f a) s answer fault) : Ends (x >>= f) s answer fault := by
  cases first with
  | error same holds =>
    refine .error ?_ holds
    rw [ExceptT.run_bind, StateT.run_bind, same]
    rfl
  | @ok a same holds =>
    have step : (x >>= f).run.run s = (f a).run.run s := run_bind_ok same
    cases next a holds with
    | ok same' holds' => exact .ok (step.trans same') holds'
    | error same' holds' => exact .error (step.trans same') holds'

theorem Ends.look {x : StateM σ α} {a : α} (seen : x.run s = (a, s))
    (next : Ends (f a) s answer fault) : Ends (liftM x >>= f) s answer fault :=
  (ends_lift seen rfl).bind fun b (same : a = b) => same ▸ next

end

theorem readConfig_ends {path : String} {named : Option String}
    (file : ConfigFile w s o path named) :
    Ends (readConfig w.host path named) s (fun c => Configured w s o (c.override o.overrides))
      (Failure w s o) := by
  unfold readConfig
  refine .look (w.run_read s path) ?_
  cases read : w.read s path with
  | error cause => exact ends_throw (.fault (.configUnreadable file read))
  | ok text =>
    dsimp only
    cases valid : w.host.config text with
    | error cause => exact ends_throw (.fault (.configInvalid file read valid))
    | ok c => exact ends_pure (.loaded file read valid)

theorem loadConfig_ends (w : World σ) (s : σ) (o : Options) :
    Ends (loadConfig w.host o) s (fun c => Configured w s o (c.override o.overrides))
      (Failure w s o) := by
  unfold loadConfig
  cases given : o.project with
  | some path => exact readConfig_ends (.named given)
  | none =>
    refine .look (w.run_kind s configName) ?_
    cases there : w.kind s configName with
    | some kind => exact readConfig_ends (.usual given (by simp [there]))
    | none => exact ends_pure (.default given there)

theorem kept_ok (excluded : List Pattern) (path : String) (rest : List Found) :
    kept w s o excluded (.ok path :: rest) =
      if w.kind s path = some .file &&
          !excluded.any fun p => p.accepting (Path.relative o.base path) then
        path :: kept w s o excluded rest
      else kept w s o excluded rest :=
  List.filter_cons

theorem keepFiles_ends (excluded : List Pattern) {found : List Found}
    (blocks : ∀ cause, .error cause ∈ found → Blocked w s o cause) :
    Ends (keepFiles w.host o.base excluded found) s
      (fun files => files = kept w s o excluded found ∧ ∀ cause, .error cause ∉ found)
      (Failure w s o) := by
  induction found with
  | nil => exact ends_pure ⟨rfl, fun cause there => nomatch there⟩
  | cons entry rest ih =>
    cases entry with
    | error cause => exact ends_throw (.blocked (blocks cause List.mem_cons_self))
    | ok path =>
      unfold keepFiles
      refine .look (w.run_kind s path) ?_
      refine (ih fun cause there => blocks cause (List.mem_cons_of_mem _ there)).bind ?_
      rintro more ⟨rfl, unblocked⟩
      have unblocked : ∀ cause, .error cause ∉ (.ok path : Found) :: rest := by
        simpa using unblocked
      split
      · rename_i keep
        refine ends_pure ⟨?_, unblocked⟩
        rw [kept_ok, if_pos keep]
      · rename_i drop
        refine ends_pure ⟨?_, unblocked⟩
        rw [kept_ok, if_neg drop]

section

variable {c : Config} (config : Configured w s o c)
include config

theorem findAll_ends (unnamed : o.files = []) (excluded : List Pattern) {included : List String}
    (listed : ∀ text ∈ included, text ∈ c.included) :
    Ends (findAll w.host o.base excluded included) s
      (fun files => (∃ searches, files = searches.flatMap (kept w s o excluded) ∧
        included.mapM (fun text => w.search s (Path.join o.base text)) = .ok searches) ∧
        ∀ text ∈ included, ∀ found, w.search s (Path.join o.base text) = .ok found →
          ∀ cause, .error cause ∉ found)
      (Failure w s o) := by
  induction included with
  | nil => exact ends_pure ⟨⟨[], rfl, rfl⟩, fun text there => nomatch there⟩
  | cons text rest ih =>
    obtain ⟨here, others⟩ := List.forall_mem_cons.mp listed
    unfold findAll
    refine .look (w.run_search s (Path.join o.base text)) ?_
    cases search : w.search s (Path.join o.base text) with
    | error cause => exact ends_throw (.fault (.badInclude config unnamed here search))
    | ok found =>
      have blocks : ∀ cause, .error cause ∈ found → Blocked w s o cause :=
        fun cause there => .intro config unnamed here search there
      refine (keepFiles_ends excluded blocks).bind ?_
      rintro files ⟨rfl, unblocked⟩
      refine (ih others).bind ?_
      rintro more ⟨⟨searches, rfl, taken⟩, clear⟩
      refine ends_pure ⟨⟨found :: searches, rfl, ?_⟩, List.forall_mem_cons.mpr ⟨?_, clear⟩⟩
      · rw [List.mapM_cons, search, taken]
        rfl
      · intro found' search'
        obtain rfl := Except.ok.inj (search.symm.trans search')
        exact unblocked

theorem inputs_ends :
    Ends (inputs w.host o c) s
      (fun files => Selected w s o c files ∧ ∀ cause, ¬ Blocked w s o cause)
      (Failure w s o) := by
  unfold inputs
  split
  · rename_i given
    refine ends_pure ⟨.named given, fun cause blocked => ?_⟩
    cases blocked with
    | intro _ unnamed => exact given unnamed
  · rename_i unnamed
    have unnamed := Decidable.not_not.mp unnamed
    have exclusion := mapM_result Pattern.parse c.excluded
    cases left : c.excluded.mapM Pattern.parse with
    | error cause =>
      rw [left] at exclusion
      obtain ⟨text, listed, invalid⟩ := exclusion
      exact ends_throw (.fault (.badExclude config unnamed listed invalid))
    | ok excluded =>
      refine (findAll_ends config unnamed excluded fun text there => there).bind ?_
      rintro files ⟨⟨searches, rfl, taken⟩, clear⟩
      refine ends_pure ⟨.found unnamed left taken, fun cause blocked => ?_⟩
      cases blocked with
      | intro config' _ listed search unread =>
        obtain rfl := config.unique config'
        exact clear _ listed _ search cause unread

end

theorem rootScope_result (c : Config) :
    match c.rootScope with
    | .ok _ => ∀ entry ∈ c.types ++ c.globals, ∃ t, Ty.parse entry.2 = .ok t
    | .error e => (e.name, e.text) ∈ c.types ++ c.globals ∧ Ty.parse e.text = .error e.cause := by
  rcases Config.all_reads_or_rejects c with ⟨types, globals, typed, given⟩ | ⟨e, rejects⟩
  · rw [Config.rootScope_reads typed given]
    exact List.forall_mem_append.mpr ⟨(Config.accepted_iff_reads _).mpr ⟨types, typed⟩,
      (Config.accepted_iff_reads _).mpr ⟨globals, given⟩⟩
  · rw [Config.rootScope_rejects rejects]
    exact ⟨List.mem_of_find?_eq_some rejects.first, rejects.cause⟩

theorem findSource_run (w : World σ) (s : σ) (path : String) :
    ∃ source, (findSource w.host path).run s = (source, s) := by
  unfold findSource
  cases sourcePath? path with
  | none => exact ⟨none, rfl⟩
  | some source =>
    simp only [StateT.run_bind, w.run_kind]
    cases w.kind s source with
    | none => exact ⟨none, rfl⟩
    | some kind => cases kind <;> exact ⟨_, rfl⟩

theorem sourceOf_ends (w : World σ) (s : σ) (o : Options) (path : String) :
    Ends (sourceOf w.host o.source path) s
      (fun _ => ∀ named, o.source = some named → ∃ text, w.read s named = .ok text)
      (Failure w s o) := by
  unfold sourceOf
  cases given : o.source with
  | none =>
    obtain ⟨source, looked⟩ := findSource_run w s path
    exact ends_lift looked fun named given => nomatch given
  | some named =>
    refine .look (w.run_read s named) ?_
    cases read : w.read s named with
    | error cause => exact ends_throw (.fault (.sourceUnreadable given read))
    | ok text =>
      refine ends_pure fun other same => ?_
      obtain rfl := Option.some.inj same
      exact ⟨text, read⟩

section

variable {c : Config} {files : List String} (config : Configured w s o c)
  (inputs : Selected w s o c files) (root : Scope)
include config inputs

theorem checkFile_ends {path : String} (listed : path ∈ files) :
    Ends (checkFile w.host o.source root path) s
      (fun r => ∃ p, Holds w s (path, p) ∧ r.found = (path, p.check root) ∧
        ∀ named, o.source = some named → ∃ text, w.read s named = .ok text) (Failure w s o) := by
  unfold checkFile
  refine .look (w.run_read s path) ?_
  cases read : w.read s path with
  | error cause => exact ends_throw (.fault (.unreadable config inputs listed read))
  | ok text =>
    dsimp only
    cases valid : Program.parse text with
    | error cause => exact ends_throw (.fault (.unloadable config inputs listed read valid))
    | ok p =>
      refine (sourceOf_ends w s o path).bind fun source sourced => ?_
      exact ends_pure ⟨p, ⟨text, read, valid⟩, rfl, sourced⟩

theorem checkFiles_ends {paths : List String} (listed : ∀ path ∈ paths, path ∈ files) :
    Ends (checkFiles w.host o.source root paths) s
      (fun reports => ∃ programs : List (String × Program), programs.map Prod.fst = paths ∧
        (∀ file ∈ programs, Holds w s file) ∧
        reports.map Report.found = programs.map (fun file => (file.1, file.2.check root)) ∧
        (paths ≠ [] → ∀ named, o.source = some named → ∃ text, w.read s named = .ok text))
      (Failure w s o) := by
  induction paths with
  | nil =>
    exact ends_pure ⟨[], rfl, fun _ there => (nomatch there), rfl, fun some => absurd rfl some⟩
  | cons path rest ih =>
    obtain ⟨here, others⟩ := List.forall_mem_cons.mp listed
    unfold checkFiles
    refine (checkFile_ends config inputs root here).bind ?_
    rintro report ⟨p, holds, found, sourced⟩
    refine (ih others).bind ?_
    rintro reports ⟨programs, rfl, each, same, -⟩
    refine ends_pure ⟨(path, p) :: programs, rfl, List.forall_mem_cons.mpr ⟨holds, each⟩, ?_,
      fun _ => sourced⟩
    rw [List.map_cons, List.map_cons, found, same]

end

theorem reports_end {c : Config} {files : List String} {root : Scope}
    (config : Configured w s o c) (inputs : Selected w s o c files)
    (rooted : c.rootScope = .ok root) (nonempty : files ≠ [])
    (single : ¬ (o.source.isSome && decide (files.length > 1)) = true) :
    Ends (checkFiles w.host o.source root files) s
      (fun reports => ∃ session : Session w s o, session.config = c ∧
        reports.map Report.found = session.findings) (Failure w s o) := by
  cases checkFiles_ends config inputs root fun path there => there with
  | error same failure => exact .error same failure
  | ok same answer =>
    obtain ⟨programs, rfl, loaded, found, sourced⟩ := answer
    refine .ok same ⟨⟨c, config, root, rooted, programs, inputs, ?_, loaded, ?_,
      sourced nonempty⟩, rfl, found⟩
    · rintro rfl
      exact nonempty rfl
    · intro given
      simpa [Option.isSome_iff_ne_none, given] using single

theorem inspect_ends (w : World σ) (s : σ) (o : Options) :
    Ends (inspect w.host o) s
      (fun shown => (∃ session : Session w s o, session.config = shown.1 ∧
        shown.2.map Report.found = session.findings) ∧ ∀ cause, ¬ Blocked w s o cause)
      (Failure w s o) := by
  unfold inspect
  refine (loadConfig_ends w s o).bind fun c config => ?_
  dsimp only
  generalize c.override o.overrides = c at config ⊢
  refine (inputs_ends config).bind ?_
  rintro files ⟨inputs, unblocked⟩
  split
  · rename_i nothing
    rw [List.isEmpty_iff] at nothing
    subst nothing
    exact ends_throw_bind (.fault (.noInput config inputs))
  · rename_i nonempty
    rw [List.isEmpty_iff] at nonempty
    split
    · rename_i several
      rw [Bool.and_eq_true, Option.isSome_iff_ne_none, decide_eq_true_eq] at several
      exact ends_throw_bind (.fault (.sourceForSeveral config inputs several.1 several.2))
    · rename_i single
      have types := rootScope_result c
      cases rooted : c.rootScope with
      | error e =>
        rw [rooted] at types
        exact ends_throw (.fault (.badType config types.1 types.2))
      | ok root =>
        refine (reports_end config inputs rooted nonempty single).bind fun reports answer => ?_
        exact ends_pure ⟨answer, unblocked⟩

theorem createConfig_there (there : w.kind s configName ≠ none) :
    (createConfig w.host).run.run s = (.error .alreadyConfigured, s) := by
  obtain ⟨kind, found⟩ := Option.ne_none_iff_exists'.mp there
  rw [createConfig, run_lift_bind (w.run_kind s configName), found]
  rfl

theorem createConfig_absent (absent : w.kind s configName = none) {written : Except FileError Unit}
    {s' : σ} (result : w.write s configName (Config.text {}) = (written, s')) :
    (createConfig w.host).run.run s = (written.mapError .notCreated, s') := by
  rw [createConfig, run_lift_bind (w.run_kind s configName), absent]
  refine (run_lift_bind ((w.run_write ..).trans result)).trans ?_
  cases written <;> rfl

/-! Faults and sessions exclude each other. -/

theorem Configured.readable {c : Config} (config : Configured w s o c) {path : String}
    {named : Option String} (file : ConfigFile w s o path named) :
    ∃ text c', w.read s path = .ok text ∧ w.config text = .ok c' := by
  cases config with
  | loaded file' read valid =>
    obtain ⟨rfl, -⟩ := file.unique file'
    exact ⟨_, _, read, valid⟩
  | default unnamed absent => exact absurd absent (file.not_default unnamed)

theorem Selected.patterns {c : Config} {files : List String} (inputs : Selected w s o c files)
    (unnamed : o.files = []) :
    (∀ text ∈ c.excluded, ∃ p, Pattern.parse text = .ok p) ∧
      ∀ text ∈ c.included, ∃ found, w.search s (Path.join o.base text) = .ok found := by
  cases inputs with
  | named given => exact absurd unnamed given
  | found _ left taken =>
    have exclusion := mapM_result Pattern.parse c.excluded
    have inclusion := mapM_result (fun text => w.search s (Path.join o.base text)) c.included
    rw [left] at exclusion
    rw [taken] at inclusion
    exact ⟨exclusion, inclusion⟩

theorem Session.holds (session : Session w s o) {c : Config} {files : List String} {path : String}
    (config : Configured w s o c) (inputs : Selected w s o c files) (listed : path ∈ files) :
    ∃ p, Holds w s (path, p) := by
  obtain rfl := config.unique session.configured
  obtain rfl := inputs.unique session.inputs
  obtain ⟨⟨_, p⟩, there, rfl⟩ := List.mem_map.mp listed
  exact ⟨p, session.loaded _ there⟩

theorem Session.faultless (session : Session w s o) : ¬ Fault w s o e := by
  intro fault
  cases fault with
  | configUnreadable file read =>
    obtain ⟨text, c, readable, -⟩ := session.configured.readable file
    cases read.symm.trans readable
  | configInvalid file read invalid =>
    obtain ⟨text, c, readable, valid⟩ := session.configured.readable file
    obtain rfl := Except.ok.inj (read.symm.trans readable)
    cases invalid.symm.trans valid
  | badExclude config unnamed listed invalid =>
    obtain rfl := config.unique session.configured
    obtain ⟨p, valid⟩ := (session.inputs.patterns unnamed).1 _ listed
    cases invalid.symm.trans valid
  | badInclude config unnamed listed invalid =>
    obtain rfl := config.unique session.configured
    obtain ⟨found, valid⟩ := (session.inputs.patterns unnamed).2 _ listed
    cases invalid.symm.trans valid
  | noInput config nothing =>
    obtain rfl := config.unique session.configured
    have none := nothing.unique session.inputs
    exact session.nonempty (List.map_eq_nil_iff.mp none.symm)
  | sourceForSeveral config inputs given several =>
    obtain rfl := config.unique session.configured
    obtain rfl := inputs.unique session.inputs
    rw [List.length_map] at several
    have single := session.single given
    omega
  | badType config listed invalid =>
    obtain rfl := config.unique session.configured
    have types := rootScope_result session.config
    rw [session.rooted] at types
    obtain ⟨t, valid⟩ := types _ listed
    cases invalid.symm.trans valid
  | sourceUnreadable given read =>
    obtain ⟨text, readable⟩ := session.sourced _ given
    cases read.symm.trans readable
  | unreadable config inputs listed read =>
    obtain ⟨p, text, readable, -⟩ := session.holds config inputs listed
    cases read.symm.trans readable
  | unloadable config inputs listed read invalid =>
    obtain ⟨p, text, readable, valid⟩ := session.holds config inputs listed
    obtain rfl := Except.ok.inj (read.symm.trans readable)
    cases invalid.symm.trans valid

/-! Reports -/

/-- What a session leaves behind. -/
structure Session.Shown (session : Session w s o) (out : Outcome) : Prop where
  status : out.status = 0 ∧ session.Clean ∨ out.status = 1 ∧ ¬ session.Clean
  text : session.config.format = .text → out.stdout = "" ∧ (out.stderr = "" ↔ out.status = 0)
  json : session.config.format = .json →
    out.stderr = "" ∧ entriesOf? out.stdout = some (session.findings.map entryOf)

theorem Session.shown_ofReports {session : Session w s o} {reports : List Report}
    (found : reports.map Report.found = session.findings) :
    session.Shown (.ofReports session.config reports) := by
  have clean : reports.all Report.isClean = true ↔ session.Clean := by
    have each : reports.all Report.isClean = true ↔
        ∀ file ∈ reports.map Report.found, file.2 = [] := by
      simp [Report.found, Report.isClean]
    rw [each, found, findings, List.forall_mem_map]
    rfl
  constructor
  case status =>
    unfold Outcome.ofReports
    by_cases all : session.Clean
    · left
      cases session.config.format <;> simp [clean.mpr all, all]
    · right
      cases session.config.format <;> simp [clean.not.mpr all, all]
  case text =>
    intro format
    have blank := textOfReports_eq_empty_iff session.config.pretty reports
    rw [← List.all_eq_true] at blank
    simp [Outcome.ofReports, format, blank]
  case json =>
    intro format
    have entries := entriesOf?_jsonOfReports reports
    rw [found] at entries
    simp [Outcome.ofReports, format, entries]

def callOfNull : String := r#"[{"type":"call","target":{"type":"null"},"args":[]}]"#

def callingNull : FileTree := { files := [(["a.json"], callOfNull)] }

def halfLocked : FileTree :=
  { files := [(["a.is.json"], "[]"), (["d", "note"], "")], locked := [["d"]] }

end ScriptCheck.Command
