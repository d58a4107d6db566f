import PolicyLint.Adapter
import PolicyLint.AdapterRegistry
import PolicyLint.Check
import PolicyLint.Collection
import PolicyLint.CommandLine.Command
import PolicyLint.CommandLine.Run
import PolicyLint.Document.Decode
import PolicyLint.Document.Node
import PolicyLint.Document.Text
import PolicyLint.Document.Token
import PolicyLint.Engine.Basic
import PolicyLint.Engine.Builtin
import PolicyLint.Engine.Evaluation
import PolicyLint.Engine.Registry
import PolicyLint.Failure
import PolicyLint.FilePattern.Basic
import PolicyLint.FilePattern.Expansion
import PolicyLint.Glob.Match
import PolicyLint.Glob.Pattern
import PolicyLint.Host.Basic
import PolicyLint.Host.Process
import PolicyLint.Host.Snapshot
import PolicyLint.Host.Tree
import PolicyLint.Json.Printer
import PolicyLint.Json.Value
import PolicyLint.Language
import PolicyLint.Main
import PolicyLint.Numeric.Decimal
import PolicyLint.Numeric.Double
import PolicyLint.Numeric.Shortest
import PolicyLint.Path
import PolicyLint.Payload
import PolicyLint.PolicyFile
import PolicyLint.Proofs.Action
import PolicyLint.Proofs.Adapter.Reach
import PolicyLint.Proofs.Adapter.Routing
import PolicyLint.Proofs.Check.Reading
import PolicyLint.Proofs.Checkstyle.Audit
import PolicyLint.Proofs.Checkstyle.Configuration
import PolicyLint.Proofs.Checkstyle.Cut
import PolicyLint.Proofs.Checkstyle.Sheet
import PolicyLint.Proofs.Collection.Location
import PolicyLint.Proofs.Document.Canonical
import PolicyLint.Proofs.Document.Given
import PolicyLint.Proofs.Document.Lexeme
import PolicyLint.Proofs.Document.Recognized
import PolicyLint.Proofs.Document.Record
import PolicyLint.Proofs.Document.Refusal
import PolicyLint.Proofs.Document.Shape
import PolicyLint.Proofs.Document.Tree
import PolicyLint.Proofs.Document.Written
import PolicyLint.Proofs.Document.Yield
import PolicyLint.Proofs.Engine.Interleaving
import PolicyLint.Proofs.Engine.Registry
import PolicyLint.Proofs.Engine.Sharing
import PolicyLint.Proofs.Eslint.Content
import PolicyLint.Proofs.Evaluation.Alone
import PolicyLint.Proofs.Evaluation.Course
import PolicyLint.Proofs.Evaluation.Crew
import PolicyLint.Proofs.Evaluation.Installation
import PolicyLint.Proofs.Evaluation.Ledger
import PolicyLint.Proofs.Evaluation.Overdue
import PolicyLint.Proofs.Evaluation.Run
import PolicyLint.Proofs.Evaluation.Steady
import PolicyLint.Proofs.Evaluation.Workers
import PolicyLint.Proofs.Failure.Layer
import PolicyLint.Proofs.Glob.Component
import PolicyLint.Proofs.Glob.Segment
import PolicyLint.Proofs.Glob.Spelling
import PolicyLint.Proofs.Host.Passage
import PolicyLint.Proofs.Host.Walk
import PolicyLint.Proofs.Host.Watching
import PolicyLint.Proofs.Json.Fields
import PolicyLint.Proofs.Json.Printed
import PolicyLint.Proofs.Language.Detection
import PolicyLint.Proofs.Language.Naming
import PolicyLint.Proofs.Numeric.Plain
import PolicyLint.Proofs.Numeric.Rounding
import PolicyLint.Proofs.Numeric.Scientific
import PolicyLint.Proofs.Numeric.Value
import PolicyLint.Proofs.Numeric.Word
import PolicyLint.Proofs.Path.Component
import PolicyLint.Proofs.Path.FileName
import PolicyLint.Proofs.Path.Parent
import PolicyLint.Proofs.Pmd.Containment
import PolicyLint.Proofs.Pmd.Ruleset
import PolicyLint.Proofs.Policy.RoundTrip
import PolicyLint.Proofs.Query.Constraint
import PolicyLint.Proofs.Query.Determined
import PolicyLint.Proofs.Query.Expression
import PolicyLint.Proofs.Query.Normal
import PolicyLint.Proofs.Query.Number
import PolicyLint.Proofs.Report.Cancellation
import PolicyLint.Proofs.Report.Display
import PolicyLint.Proofs.Report.Independence
import PolicyLint.Proofs.Report.WellFormed
import PolicyLint.Proofs.Scope.Gating
import PolicyLint.Proofs.Selector.Filter
import PolicyLint.Proofs.Settings.Precedence
import PolicyLint.Proofs.Settings.RootDetection
import PolicyLint.Proofs.Text.Apart
import PolicyLint.Proofs.Text.Folding
import PolicyLint.Proofs.Text.Order
import PolicyLint.Proofs.Text.Place
import PolicyLint.Proofs.Text.Reading
import PolicyLint.Proofs.Tool.Arguments
import PolicyLint.Proofs.Tool.Diagnostics
import PolicyLint.Proofs.Tool.Enforcement
import PolicyLint.Proofs.Tool.Failing
import PolicyLint.Proofs.Tool.Files
import PolicyLint.Proofs.Tool.Listing
import PolicyLint.Proofs.Tool.Reports
import PolicyLint.Proofs.Tool.Severity
import PolicyLint.Proofs.Tool.Silence
import PolicyLint.Proofs.Tool.Verdict
import PolicyLint.Proofs.Xml.Grammar
import PolicyLint.Proofs.Xml.Lines
import PolicyLint.Proofs.Xml.Mark
import PolicyLint.Proofs.Xml.Nesting
import PolicyLint.Proofs.Xml.Tree
import PolicyLint.Proofs.Xml.Written
import PolicyLint.Query
import PolicyLint.Query.Estree
import PolicyLint.Query.XPath
import PolicyLint.Report.Basic
import PolicyLint.Report.Crew
import PolicyLint.Report.Display
import PolicyLint.Report.Validation
import PolicyLint.Rule
import PolicyLint.Scope
import PolicyLint.Selector
import PolicyLint.Settings
import PolicyLint.Severity
import PolicyLint.Text.Blank
import PolicyLint.Text.Digit
import PolicyLint.Text.Order
import PolicyLint.Text.Paint
import PolicyLint.Text.Pieces
import PolicyLint.Text.Printable
import PolicyLint.Text.Quoted
import PolicyLint.Text.Utf8
import PolicyLint.Toml.Atom
import PolicyLint.Toml.Document
import PolicyLint.Toml.Table
import PolicyLint.Toml.Text
import PolicyLint.Tool.Checkstyle
import PolicyLint.Tool.Eslint
import PolicyLint.Tool.Pmd
import PolicyLint.Tool.Prettier
import PolicyLint.Tool.Toolbox
import PolicyLint.Tool.Tsc
import PolicyLint.Violation
import PolicyLint.Xml.Attribute
import PolicyLint.Xml.Escape
import PolicyLint.Xml.Tag
import PolicyLint.Yaml.Block
import PolicyLint.Yaml.Cursor
import PolicyLint.Yaml.Document
import PolicyLint.Yaml.Inline
import PolicyLint.Yaml.Property
import PolicyLint.Yaml.Scalar
import PolicyLint.Yaml.Token
import PolicyLint.Yaml.Tree
