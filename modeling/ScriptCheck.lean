import ScriptCheck.Text.Alphanumeric
import ScriptCheck.Text.Blank
import ScriptCheck.Text.Units
import ScriptCheck.Ty.Basic
import ScriptCheck.Ty.Text
import ScriptCheck.Ty.Compatibility
import ScriptCheck.Ty.Token
import ScriptCheck.Ty.Reader
import ScriptCheck.Source.Span
import ScriptCheck.Source.Lines
import ScriptCheck.Diagnostic.Basic
import ScriptCheck.Diagnostic.Rendering
import ScriptCheck.Number.Binary64
import ScriptCheck.Number.Shortest
import ScriptCheck.Json.Basic
import ScriptCheck.Json.Text
import ScriptCheck.Json.Reader
import ScriptCheck.Tree.Node
import ScriptCheck.Tree.Tag
import ScriptCheck.Tree.Text
import ScriptCheck.Tree.Loading
import ScriptCheck.Scope.Bindings
import ScriptCheck.Scope.Basic
import ScriptCheck.Standard
import ScriptCheck.Inference
import ScriptCheck.Checker
import ScriptCheck.Yaml.Number
import ScriptCheck.Yaml.Scalar
import ScriptCheck.Yaml.Block
import ScriptCheck.Yaml.Tag
import ScriptCheck.Yaml.Token
import ScriptCheck.Yaml.Basic
import ScriptCheck.Yaml.Text
import ScriptCheck.Config.Basic
import ScriptCheck.Config.Loading
import ScriptCheck.Config.Text
import ScriptCheck.Files.Path
import ScriptCheck.Files.Basic
import ScriptCheck.Pattern.Basic
import ScriptCheck.Pattern.Files
import ScriptCheck.Command.Arguments
import ScriptCheck.Command.Host
import ScriptCheck.Command.Report
import ScriptCheck.Command.Run
import ScriptCheck.Main
import ScriptCheck.Proofs.Words
import ScriptCheck.Proofs.Canonical
import ScriptCheck.Proofs.Reading
import ScriptCheck.Proofs.RoundTrip
import ScriptCheck.Proofs.Positions
import ScriptCheck.Proofs.Viability
import ScriptCheck.Proofs.Derivations
import ScriptCheck.Proofs.Grammar
import ScriptCheck.Proofs.Nodes
import ScriptCheck.Proofs.Environment
import ScriptCheck.Proofs.FirstReturn
import ScriptCheck.Proofs.Scopes
import ScriptCheck.Proofs.Inference
import ScriptCheck.Proofs.Rules
import ScriptCheck.Proofs.Isolation
import ScriptCheck.Proofs.Refinement
import ScriptCheck.Proofs.Precision
import ScriptCheck.Proofs.Gradual
import ScriptCheck.Proofs.Mentions
import ScriptCheck.Proofs.Sessions
import ScriptCheck.Proofs.Leaves
import ScriptCheck.Proofs.Values
import ScriptCheck.Proofs.Records
import ScriptCheck.Proofs.Saving
import ScriptCheck.Proofs.Dependence
import ScriptCheck.Proofs.Footprint
import ScriptCheck.Proofs.Locations
import ScriptCheck.Proofs.Reordering
import ScriptCheck.Proofs.Traversal
import ScriptCheck.Proofs.Visits
import ScriptCheck.Proofs.Returns
import ScriptCheck.Proofs.Compatibility
import ScriptCheck.Proofs.Inhabitants
import ScriptCheck.Proofs.Tables
import ScriptCheck.Proofs.Annotations
import ScriptCheck.Proofs.Streaming
import ScriptCheck.Proofs.Members
import ScriptCheck.Proofs.Outermost
import ScriptCheck.Proofs.Rearranging
import ScriptCheck.Proofs.Layers
import ScriptCheck.Proofs.Reports
import ScriptCheck.Proofs.Outcomes
import ScriptCheck.Proofs.Consistency
import ScriptCheck.Proofs.Transitivity
import ScriptCheck.Proofs.Widening
import ScriptCheck.Proofs.Histories
import ScriptCheck.Proofs.Shadowing
import ScriptCheck.Proofs.Division
import ScriptCheck.Proofs.Offsets
import ScriptCheck.Proofs.Covering
import ScriptCheck.Proofs.Arguments
import ScriptCheck.Proofs.Scanning
