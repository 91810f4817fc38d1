import ScriptCheck.Command.Report
import ScriptCheck.Proofs.Outermost

/-! What reports show. A text is blank exactly if all files are clean, and from a report in JSON
each file can be read back with the messages and places of its problems. -/
namespace ScriptCheck

namespace Json

def member? (name : String) : Json → Option Json
  | .object members => members.lookup name
  | _ => none

def string? : Json → Option String
  | .string s => some s
  | _ => none

def natural? : Json → Option UInt64
  | .number (.natural n) => some n
  | _ => none

def items? : Json → Option (List Json)
  | .array items => some items
  | _ => none

theorem itemsDepth_le {items : List Json} {d : Nat} (each : ∀ j ∈ items, j.depth ≤ d) :
    itemsDepth items ≤ d := by
  induction items with
  | nil => exact Nat.zero_le d
  | cons j items ih =>
    obtain ⟨first, others⟩ := List.forall_mem_cons.mp each
    exact Nat.max_le.mpr ⟨first, ih others⟩

end Json

namespace Command

/-- A file with the messages and places of its problems. -/
abbrev Entry := String × List (String × Span)

def spanOf? (j : Json) : Option Span := do
  return ⟨← (← j.member? "start").natural?, ← (← j.member? "end").natural?⟩

def problemOf? (j : Json) : Option (String × Span) := do
  return (← (← j.member? "message").string?, ← spanOf? (← j.member? "location"))

def entryOf? (j : Json) : Option Entry := do
  let problems ← (← j.member? "diagnostics").items?
  return (← (← j.member? "file").string?, ← problems.mapM problemOf?)

def entriesOf? (text : String) : Option (List Entry) := do
  (← (← (Json.ofText text).toOption).items?).mapM entryOf?

def entryOf (file : String × List Diagnostic) : Entry :=
  (file.1, file.2.map fun d => (d.message, d.location))

theorem mapM_map_eq_some {α β γ : Type} {f : β → Option γ} {g : α → β} {h : α → γ}
    (each : ∀ x, f (g x) = some (h x)) (xs : List α) : (xs.map g).mapM f = some (xs.map h) := by
  have same : f ∘ g = fun x => pure (h x) := funext each
  rw [List.mapM_map, same, List.mapM_pure]
  rfl

namespace Report

def found (r : Report) : String × List Diagnostic := (r.path, r.diagnostics)

theorem problemOf?_diagnosticJson (d : Diagnostic) :
    problemOf? (diagnosticJson d) = some (d.message, d.location) := rfl

theorem entryOf?_toJson (r : Report) : entryOf? r.toJson = some (entryOf r.found) := by
  have problems := mapM_map_eq_some problemOf?_diagnosticJson r.diagnostics
  change ((r.diagnostics.map diagnosticJson).mapM problemOf? >>= fun problems =>
    some (r.path, problems)) = _
  rw [problems]
  rfl

theorem diagnosticJson_exact (d : Diagnostic) : (diagnosticJson d).Exact ShapeError := by
  have place : d.location.toJson.Exact ShapeError := by
    apply Json.Exact.object
    simp only [List.forall_mem_cons]
    exact ⟨.number (Json.Number.ReadsBack.natural _), .number (Json.Number.ReadsBack.natural _),
      by simp⟩
  apply Json.Exact.object
  simp only [List.forall_mem_cons]
  exact ⟨.string _, place, by simp⟩

theorem toJson_exact (r : Report) : r.toJson.Exact ShapeError := by
  have problems := Json.Exact.array
    (List.forall_mem_map.mpr fun d (_ : d ∈ r.diagnostics) => diagnosticJson_exact d)
  apply Json.Exact.object
  simp only [List.forall_mem_cons]
  exact ⟨.string _, problems, by simp⟩

theorem toJson_depth (r : Report) : r.toJson.depth ≤ 4 := by
  have problems : Json.itemsDepth (r.diagnostics.map diagnosticJson) ≤ 2 :=
    Json.itemsDepth_le (List.forall_mem_map.mpr fun d _ => Nat.le_refl 2)
  simp only [toJson, Json.depth, Json.membersDepth]
  omega

theorem text_clean {r : Report} (clean : r.isClean = true) (pretty : Bool) :
    r.text pretty = "" := by
  have none : r.diagnostics = [] := List.isEmpty_iff.mp clean
  unfold text
  rw [none]
  split <;> rfl

end Report

/-- A report in JSON lists all files in their order. -/
theorem entriesOf?_jsonOfReports (reports : List Report) :
    entriesOf? (jsonOfReports reports) = some ((reports.map Report.found).map entryOf) := by
  let j := Json.array (reports.map Report.toJson)
  have exact : j.Exact ShapeError :=
    .array (List.forall_mem_map.mpr fun r _ => r.toJson_exact)
  have fits : j.depth ≤ Json.depthLimit := by
    have each : Json.itemsDepth (reports.map Report.toJson) ≤ 4 :=
      Json.itemsDepth_le (List.forall_mem_map.mpr fun r _ => r.toJson_depth)
    simp only [j, Json.depth, Json.depthLimit]
    omega
  have ending : Json.Blank ['\n'] := List.forall_mem_singleton.mpr rfl
  have read : Json.ofText (jsonOfReports reports) = .ok j := by
    have whole := (exact.spells_indented 0).readWhole ending fits
    have text : String.ofList ((j.indented 0).toList ++ ['\n']) = jsonOfReports reports := by
      apply String.toList_inj.mp
      simp [jsonOfReports, j]
    rw [text] at whole
    exact whole
  rw [entriesOf?, read, List.map_map]
  exact mapM_map_eq_some Report.entryOf?_toJson reports

theorem problemCount_eq_zero_iff (reports : List Report) :
    problemCount reports = 0 ↔ ∀ r ∈ reports, r.isClean = true := by
  induction reports with
  | nil => exact ⟨fun _ r there => (nomatch there), fun _ => rfl⟩
  | cons r rest ih =>
    have counted : problemCount (r :: rest) = r.diagnostics.length + problemCount rest := rfl
    rw [counted, Nat.add_eq_zero_iff, List.length_eq_zero_iff, ih, List.forall_mem_cons,
      Report.isClean, List.isEmpty_iff]

theorem summary_eq_empty_iff (reports : List Report) :
    summary reports = "" ↔ ∀ r ∈ reports, r.isClean = true := by
  rw [← problemCount_eq_zero_iff]
  unfold summary
  split
  · simp [*]
  · simp [String.append_eq_empty_iff, *]

theorem textOfReports_eq_empty_iff (pretty : Bool) (reports : List Report) :
    textOfReports pretty reports = "" ↔ ∀ r ∈ reports, r.isClean = true := by
  unfold textOfReports
  rw [String.append_eq_empty_iff, summary_eq_empty_iff]
  refine ⟨And.right, fun clean => ⟨?_, clean⟩⟩
  induction reports with
  | nil => rfl
  | cons r rest ih =>
    obtain ⟨first, others⟩ := List.forall_mem_cons.mp clean
    rw [List.map_cons, String.join_cons, r.text_clean first, ih others]
    rfl

end Command
end ScriptCheck
