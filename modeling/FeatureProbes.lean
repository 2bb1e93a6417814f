import FeatureProbes.Build.Api
import FeatureProbes.Build.Builtins
import FeatureProbes.Build.Css
import FeatureProbes.Build.Document
import FeatureProbes.BuildError
import FeatureProbes.Catalog.Basic
import FeatureProbes.Catalog.Codec
import FeatureProbes.Catalog.Import
import FeatureProbes.Catalog.Override
import FeatureProbes.Catalog.Problem
import FeatureProbes.Catalog.Reader
import FeatureProbes.Catalog.Resource
import FeatureProbes.Diagnostics
import FeatureProbes.Json.Decode
import FeatureProbes.Json.Encode
import FeatureProbes.Json.Printer
import FeatureProbes.Json.Reader
import FeatureProbes.Json.Value
import FeatureProbes.Probe.Code
import FeatureProbes.Probe.Codec
import FeatureProbes.Probe.Table
import FeatureProbes.Proofs.Build.Additions
import FeatureProbes.Proofs.Build.BuiltinTable
import FeatureProbes.Proofs.Build.Builtins
import FeatureProbes.Proofs.Build.Collecting
import FeatureProbes.Proofs.Build.Declared
import FeatureProbes.Proofs.Build.DefaultCode
import FeatureProbes.Proofs.Build.Difference
import FeatureProbes.Proofs.Build.Documents
import FeatureProbes.Proofs.Build.Domains
import FeatureProbes.Proofs.Build.Entries
import FeatureProbes.Proofs.Build.Exposure
import FeatureProbes.Proofs.Build.Failures
import FeatureProbes.Proofs.Build.GlobalObjects
import FeatureProbes.Proofs.Build.Groups
import FeatureProbes.Proofs.Build.Planned
import FeatureProbes.Proofs.Build.Precedence
import FeatureProbes.Proofs.Build.Probes
import FeatureProbes.Proofs.Build.Properties
import FeatureProbes.Proofs.Build.Resources
import FeatureProbes.Proofs.Build.Steps
import FeatureProbes.Proofs.Catalog.Additional
import FeatureProbes.Proofs.Catalog.Answers
import FeatureProbes.Proofs.Catalog.Apart
import FeatureProbes.Proofs.Catalog.Calls
import FeatureProbes.Proofs.Catalog.Dangling
import FeatureProbes.Proofs.Catalog.Dependence
import FeatureProbes.Proofs.Catalog.Difference
import FeatureProbes.Proofs.Catalog.Expansion
import FeatureProbes.Proofs.Catalog.Finished
import FeatureProbes.Proofs.Catalog.Format
import FeatureProbes.Proofs.Catalog.ImportCycle
import FeatureProbes.Proofs.Catalog.Loaded
import FeatureProbes.Proofs.Catalog.Needed
import FeatureProbes.Proofs.Catalog.Ordered
import FeatureProbes.Proofs.Catalog.Places
import FeatureProbes.Proofs.Catalog.Precedence
import FeatureProbes.Proofs.Catalog.Reachability
import FeatureProbes.Proofs.Catalog.Splicing
import FeatureProbes.Proofs.Catalog.Subtests
import FeatureProbes.Proofs.Json.Encoding
import FeatureProbes.Proofs.Json.Text
import FeatureProbes.Proofs.Json.Values
import FeatureProbes.Proofs.Probe.Condition
import FeatureProbes.Proofs.Probe.Encoding
import FeatureProbes.Proofs.Probe.Guards
import FeatureProbes.Proofs.Probe.Insertion
import FeatureProbes.Proofs.Probe.Members
import FeatureProbes.Proofs.Probe.Runtime
import FeatureProbes.Proofs.Probe.Table
import FeatureProbes.Proofs.Reporting
import FeatureProbes.Proofs.Script.Declaring
import FeatureProbes.Proofs.Script.Editing
import FeatureProbes.Proofs.Script.InOrder
import FeatureProbes.Proofs.Script.InOrder.Expressions
import FeatureProbes.Proofs.Script.InOrder.Functions
import FeatureProbes.Proofs.Script.InOrder.Linkage
import FeatureProbes.Proofs.Script.InOrder.Operands
import FeatureProbes.Proofs.Script.InOrder.Patterns
import FeatureProbes.Proofs.Script.InOrder.Statements
import FeatureProbes.Proofs.Script.Lexemes
import FeatureProbes.Proofs.Script.Literal
import FeatureProbes.Proofs.Script.Locality
import FeatureProbes.Proofs.Script.Locality.Lexemes
import FeatureProbes.Proofs.Script.Locality.Numbers
import FeatureProbes.Proofs.Script.Occurrences
import FeatureProbes.Proofs.Script.Reading
import FeatureProbes.Proofs.Script.Renaming
import FeatureProbes.Proofs.Script.Spans
import FeatureProbes.Proofs.Script.Throwing
import FeatureProbes.Proofs.Script.Wrapping
import FeatureProbes.Proofs.SortedMap
import FeatureProbes.Proofs.Text.Affix
import FeatureProbes.Proofs.Text.Layout
import FeatureProbes.Proofs.Text.Lines
import FeatureProbes.Proofs.Text.Quoted
import FeatureProbes.Proofs.Text.Segments
import FeatureProbes.Proofs.WebIdl.Contributions
import FeatureProbes.Proofs.WebIdl.Delivery
import FeatureProbes.Proofs.WebIdl.Encoding
import FeatureProbes.Proofs.WebIdl.Exposure
import FeatureProbes.Proofs.WebIdl.Globals
import FeatureProbes.Proofs.WebIdl.Merged
import FeatureProbes.Proofs.WebIdl.Order
import FeatureProbes.Proofs.WebIdl.Passes
import FeatureProbes.Proofs.WebIdl.Reading.Attributes
import FeatureProbes.Proofs.WebIdl.Reading.Definitions
import FeatureProbes.Proofs.WebIdl.Reading.Escaped
import FeatureProbes.Proofs.WebIdl.Reading.Layout
import FeatureProbes.Proofs.WebIdl.Reading.Lines
import FeatureProbes.Proofs.WebIdl.Reading.Members
import FeatureProbes.Proofs.WebIdl.Reading.Pieces
import FeatureProbes.Proofs.WebIdl.Reading.Progress
import FeatureProbes.Proofs.WebIdl.Reading.Renamed
import FeatureProbes.Proofs.WebIdl.Reading.Renaming
import FeatureProbes.Proofs.WebIdl.Reading.Returning
import FeatureProbes.Proofs.WebIdl.Reading.Rows
import FeatureProbes.Proofs.WebIdl.Reading.Scanning
import FeatureProbes.Proofs.WebIdl.Reading.Statements
import FeatureProbes.Proofs.WebIdl.Reading.Steps
import FeatureProbes.Proofs.WebIdl.Reading.Taking
import FeatureProbes.Proofs.WebIdl.Reading.Tokens
import FeatureProbes.Proofs.WebIdl.Reading.Trivia
import FeatureProbes.Proofs.WebIdl.Reading.Types
import FeatureProbes.Proofs.WebIdl.Reading.Written
import FeatureProbes.Proofs.WebIdl.References
import FeatureProbes.Proofs.WebIdl.Restriction
import FeatureProbes.Proofs.WebIdl.Routing
import FeatureProbes.Script.ClassBody
import FeatureProbes.Script.Expression
import FeatureProbes.Script.Fault
import FeatureProbes.Script.Function
import FeatureProbes.Script.Grammar
import FeatureProbes.Script.Lexeme
import FeatureProbes.Script.Linkage
import FeatureProbes.Script.Name
import FeatureProbes.Script.Pattern
import FeatureProbes.Script.Rename
import FeatureProbes.Script.Shape
import FeatureProbes.Script.Statement
import FeatureProbes.Script.StringLiteral
import FeatureProbes.Script.Token
import FeatureProbes.Script.Tree
import FeatureProbes.Script.Trivia
import FeatureProbes.Script.Wrapper
import FeatureProbes.SortedMap
import FeatureProbes.Text.Affix
import FeatureProbes.Text.Blank
import FeatureProbes.Text.Lines
import FeatureProbes.Text.Quoted
import FeatureProbes.Text.Segments
import FeatureProbes.Text.Shown
import FeatureProbes.WebIdl.Basic
import FeatureProbes.WebIdl.Codec
import FeatureProbes.WebIdl.Exposure
import FeatureProbes.WebIdl.Merge
import FeatureProbes.WebIdl.Parser.Basic
import FeatureProbes.WebIdl.Parser.Definition
import FeatureProbes.WebIdl.Parser.Member
import FeatureProbes.WebIdl.Parser.Type
import FeatureProbes.WebIdl.Token
import FeatureProbes.WebIdl.Validation
