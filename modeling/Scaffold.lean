import Scaffold.Command.Grammar
import Scaffold.Command.Help
import Scaffold.Command.Invocation
import Scaffold.Command.Run
import Scaffold.Compose.Definition
import Scaffold.Compose.Printer
import Scaffold.Compose.Reader
import Scaffold.Compose.Routing
import Scaffold.Compose.Store
import Scaffold.Config
import Scaffold.Decimal.Binary
import Scaffold.Decimal.Scaled
import Scaffold.Decimal.Shortest
import Scaffold.Decimal.Text
import Scaffold.Disk
import Scaffold.Document
import Scaffold.Edit
import Scaffold.Env.Calculation
import Scaffold.Env.DotEnv
import Scaffold.Env.Expr
import Scaffold.Env.Flaw
import Scaffold.Env.Model
import Scaffold.Env.Project
import Scaffold.Env.Resolve
import Scaffold.Env.Store
import Scaffold.Env.Validation
import Scaffold.Env.ValueType
import Scaffold.Env.Variable
import Scaffold.Fault
import Scaffold.Json.Basic
import Scaffold.Json.Printer
import Scaffold.Json.Reader
import Scaffold.Json.Store
import Scaffold.Layout
import Scaffold.Main
import Scaffold.Path
import Scaffold.Proofs.Compose.Bodies
import Scaffold.Proofs.Compose.Calls
import Scaffold.Proofs.Compose.Files
import Scaffold.Proofs.Compose.Keeping
import Scaffold.Proofs.Compose.Labels
import Scaffold.Proofs.Compose.Rereading
import Scaffold.Proofs.Compose.RoundTrip
import Scaffold.Proofs.Compose.Routing
import Scaffold.Proofs.Compose.Run
import Scaffold.Proofs.Decimal.Bits
import Scaffold.Proofs.Decimal.Equality
import Scaffold.Proofs.Decimal.RoundTrip
import Scaffold.Proofs.Decimal.Rounding
import Scaffold.Proofs.Decimal.Text
import Scaffold.Proofs.Disk
import Scaffold.Proofs.Document.Bounds
import Scaffold.Proofs.Document.Lines
import Scaffold.Proofs.Document.Mutation
import Scaffold.Proofs.Document.Reopening
import Scaffold.Proofs.Env.Adding
import Scaffold.Proofs.Env.Calculation
import Scaffold.Proofs.Env.Calls
import Scaffold.Proofs.Env.Checks
import Scaffold.Proofs.Env.Declaration
import Scaffold.Proofs.Env.DotEnv
import Scaffold.Proofs.Env.Evaluation
import Scaffold.Proofs.Env.Expression
import Scaffold.Proofs.Env.Files
import Scaffold.Proofs.Env.Generation
import Scaffold.Proofs.Env.HandWritten
import Scaffold.Proofs.Env.Lookup
import Scaffold.Proofs.Env.ModelText
import Scaffold.Proofs.Env.Privacy
import Scaffold.Proofs.Env.PublicView
import Scaffold.Proofs.Env.ReadBack
import Scaffold.Proofs.Env.Refinement
import Scaffold.Proofs.Env.RelativeImport
import Scaffold.Proofs.Env.RoundTrip
import Scaffold.Proofs.Env.Selection
import Scaffold.Proofs.Env.Session
import Scaffold.Proofs.Env.Skeleton
import Scaffold.Proofs.Env.Switch
import Scaffold.Proofs.Env.Template
import Scaffold.Proofs.Env.TypeBlock
import Scaffold.Proofs.Env.Validation
import Scaffold.Proofs.Json.Merge
import Scaffold.Proofs.Outcome
import Scaffold.Proofs.Path
import Scaffold.Proofs.Refusal
import Scaffold.Proofs.Script.Array
import Scaffold.Proofs.Script.Balance
import Scaffold.Proofs.Script.Clause
import Scaffold.Proofs.Script.Cut
import Scaffold.Proofs.Script.Entries
import Scaffold.Proofs.Script.Extension
import Scaffold.Proofs.Script.Import
import Scaffold.Proofs.Script.Literal.Equality
import Scaffold.Proofs.Script.Literal.Location
import Scaffold.Proofs.Script.Literal.Reading
import Scaffold.Proofs.Script.Literal.RoundTrip
import Scaffold.Proofs.Script.Literal.Stability
import Scaffold.Proofs.Script.Locate
import Scaffold.Proofs.Script.Matching
import Scaffold.Proofs.Script.Object
import Scaffold.Proofs.Script.Pieces
import Scaffold.Proofs.Script.Place
import Scaffold.Proofs.Script.Region
import Scaffold.Proofs.Script.Scan
import Scaffold.Proofs.Script.Spacing
import Scaffold.Proofs.Script.Splitting
import Scaffold.Proofs.Script.Statement
import Scaffold.Proofs.Script.Trimming
import Scaffold.Proofs.Script.Vocabulary
import Scaffold.Proofs.Text.Occurrence
import Scaffold.Proofs.Text.Search
import Scaffold.Proofs.Text.Trim
import Scaffold.Proofs.Yaml.Block
import Scaffold.Proofs.Yaml.Equality
import Scaffold.Proofs.Yaml.Flow
import Scaffold.Proofs.Yaml.Folding
import Scaffold.Proofs.Yaml.Marker
import Scaffold.Proofs.Yaml.Meaning
import Scaffold.Proofs.Yaml.Nodes
import Scaffold.Proofs.Yaml.Quoted
import Scaffold.Proofs.Yaml.RoundTrip
import Scaffold.Proofs.Yaml.Scalar
import Scaffold.Proofs.Yaml.Scan
import Scaffold.Script.Import
import Scaffold.Script.Literal.Basic
import Scaffold.Script.Literal.Data
import Scaffold.Script.Literal.Printer
import Scaffold.Script.Literal.Reader
import Scaffold.Script.Quoted
import Scaffold.Script.Region
import Scaffold.Script.Scan
import Scaffold.Script.Slice
import Scaffold.Script.Splice
import Scaffold.Script.Vocabulary
import Scaffold.Table
import Scaffold.Target
import Scaffold.Text.Basic
import Scaffold.Text.Blank
import Scaffold.Text.Hex
import Scaffold.Text.Word
import Scaffold.Toml.DateTime
import Scaffold.Toml.Reader
import Scaffold.Toml.String
import Scaffold.Yaml.Anchor
import Scaffold.Yaml.Cursor
import Scaffold.Yaml.Node
import Scaffold.Yaml.Printer
import Scaffold.Yaml.Reader
import Scaffold.Yaml.Scalar.Block
import Scaffold.Yaml.Scalar.Meaning
import Scaffold.Yaml.Scalar.Plain
import Scaffold.Yaml.Scalar.Quoted
import Scaffold.Yaml.Tag
import Scaffold.Yaml.Token
import Scaffold.Yaml.Value
