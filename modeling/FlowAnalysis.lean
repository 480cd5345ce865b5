import FlowAnalysis.Analysis.Analyze
import FlowAnalysis.Analysis.Basic
import FlowAnalysis.Analysis.Invariant
import FlowAnalysis.Bubble.Basic
import FlowAnalysis.Bubble.Locate
import FlowAnalysis.Bubble.NodeType
import FlowAnalysis.Bubble.Parameters
import FlowAnalysis.Credential
import FlowAnalysis.Cron.Basic
import FlowAnalysis.Dependency.Closure
import FlowAnalysis.Dependency.Node
import FlowAnalysis.Dependency.Tree
import FlowAnalysis.Edit
import FlowAnalysis.Graph
import FlowAnalysis.Json.Basic
import FlowAnalysis.Json.Printer
import FlowAnalysis.Json.Reader
import FlowAnalysis.Json.Record
import FlowAnalysis.Location
import FlowAnalysis.Number.Binary64
import FlowAnalysis.Number.Literal
import FlowAnalysis.Options
import FlowAnalysis.Problem
import FlowAnalysis.Registry
import FlowAnalysis.Remaining
import FlowAnalysis.Schema.Basic
import FlowAnalysis.Schema.Convert
import FlowAnalysis.Schema.Infer
import FlowAnalysis.Schema.Literal
import FlowAnalysis.Scope.Outline
import FlowAnalysis.Scope.Tree
import FlowAnalysis.Script.Callable
import FlowAnalysis.Script.Comment
import FlowAnalysis.Script.Cursor
import FlowAnalysis.Script.Expression
import FlowAnalysis.Script.FlowClass
import FlowAnalysis.Script.Grammar
import FlowAnalysis.Script.Grammar.Expressions
import FlowAnalysis.Script.Grammar.Patterns
import FlowAnalysis.Script.Grammar.Rules
import FlowAnalysis.Script.Grammar.Statements
import FlowAnalysis.Script.Grammar.Types
import FlowAnalysis.Script.Imports
import FlowAnalysis.Script.Kind
import FlowAnalysis.Script.Lexeme
import FlowAnalysis.Script.Node
import FlowAnalysis.Script.Parsed
import FlowAnalysis.Script.Reader
import FlowAnalysis.Script.Semicolon
import FlowAnalysis.Script.Statement
import FlowAnalysis.Service
import FlowAnalysis.Session
import FlowAnalysis.Table.ById
import FlowAnalysis.Table.ByName
import FlowAnalysis.Text.Blank
import FlowAnalysis.Text.Letter
import FlowAnalysis.Text.Lines
import FlowAnalysis.Text.Pattern
import FlowAnalysis.Text.Quoted
import FlowAnalysis.Text.Units
import FlowAnalysis.Trigger
import FlowAnalysis.Validation
import FlowAnalysis.Workflow.Build
import FlowAnalysis.Workflow.Json
import FlowAnalysis.Workflow.Node
import FlowAnalysis.Proofs.Session.Coherence
import FlowAnalysis.Proofs.Workflow.Agenda
import FlowAnalysis.Proofs.Workflow.Leaves
import FlowAnalysis.Proofs.Script.Reading
import FlowAnalysis.Proofs.Script.Grammar
import FlowAnalysis.Proofs.Script.Construction
import FlowAnalysis.Proofs.Bubble.Sites
import FlowAnalysis.Proofs.Bubble.Numbering
import FlowAnalysis.Proofs.Script.Callables
import FlowAnalysis.Proofs.Workflow.Territory
import FlowAnalysis.Proofs.Workflow.Reach
import FlowAnalysis.Proofs.Workflow.Fresh
import FlowAnalysis.Proofs.Analysis.Completeness
import FlowAnalysis.Proofs.Graph.Distance
import FlowAnalysis.Proofs.Dependency.Closure
import FlowAnalysis.Proofs.Dependency.Depth
import FlowAnalysis.Proofs.Dependency.Agreement
import FlowAnalysis.Proofs.Scope.Descent
import FlowAnalysis.Proofs.Scope.Nesting
import FlowAnalysis.Proofs.Scope.Visibility
import FlowAnalysis.Proofs.Scope.Coverage
import FlowAnalysis.Proofs.Bubble.Naming
import FlowAnalysis.Proofs.Registry.Classes
import FlowAnalysis.Proofs.Analysis.Places
import FlowAnalysis.Proofs.Analysis.Checking
import FlowAnalysis.Proofs.Json.Record
import FlowAnalysis.Proofs.Analysis.RoundTrip
import FlowAnalysis.Proofs.Validation.Parameters
import FlowAnalysis.Proofs.Dependency.Identity
import FlowAnalysis.Proofs.Validation.Classes
import FlowAnalysis.Proofs.Ascending
import FlowAnalysis.Proofs.Credential.Rollup
import FlowAnalysis.Proofs.Workflow.Derivation
import FlowAnalysis.Proofs.Workflow.Expansion
import FlowAnalysis.Proofs.Analysis.Ownership
import FlowAnalysis.Proofs.Script.Span
import FlowAnalysis.Proofs.Text.Match
import FlowAnalysis.Proofs.Text.Page
import FlowAnalysis.Proofs.Text.Joining
import FlowAnalysis.Proofs.Text.Insertion
import FlowAnalysis.Proofs.Edit.Assignment
import FlowAnalysis.Proofs.Edit.OwnValue
import FlowAnalysis.Proofs.Session.Reassign
import FlowAnalysis.Proofs.Session.Lines
import FlowAnalysis.Proofs.Scope.Resolution
import FlowAnalysis.Proofs.Script.CallGraph
import FlowAnalysis.Proofs.Text.Words
import FlowAnalysis.Proofs.Cron.Field
import FlowAnalysis.Proofs.Cron.Expression
import FlowAnalysis.Proofs.Cron.Step
import FlowAnalysis.Proofs.Text.Search
import FlowAnalysis.Proofs.Validation.Schedule
import FlowAnalysis.Proofs.Analysis.Namespaces
import FlowAnalysis.Proofs.Schema.Expansion
import FlowAnalysis.Proofs.Schema.Places
import FlowAnalysis.Proofs.Schema.Converted
import FlowAnalysis.Proofs.Schema.Inference
import FlowAnalysis.Proofs.Schema.Defaults
import FlowAnalysis.Proofs.Script.Literal
import FlowAnalysis.Proofs.Text.Hash
import FlowAnalysis.Proofs.Registry.Latest
import FlowAnalysis.Proofs.Script.Description
import FlowAnalysis.Proofs.Workflow.Termination
import FlowAnalysis.Proofs.Bubble.Environment
