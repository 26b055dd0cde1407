import ApiTypes.Main
import ApiTypes.Json.Display
import ApiTypes.Json.Reader
import ApiTypes.Proofs.Registry
import ApiTypes.Proofs.Document.Point
import ApiTypes.Proofs.Document.Pointer
import ApiTypes.Proofs.Reference
import ApiTypes.Proofs.Schema.References
import ApiTypes.Proofs.Conversion.Plan
import ApiTypes.Proofs.Conversion.Node
import ApiTypes.Proofs.Conversion.Builds
import ApiTypes.Proofs.Conversion.Visits
import ApiTypes.Proofs.Conversion.Script
import ApiTypes.Proofs.Conversion.Mentions
import ApiTypes.Proofs.Conversion.Allowance
import ApiTypes.Proofs.Conversion.Cycle
import ApiTypes.Proofs.Conversion.Independence
import ApiTypes.Proofs.Run.Soundness
import ApiTypes.Proofs.Run.Operations
import ApiTypes.Proofs.Run.Reach
import ApiTypes.Proofs.Run.Declarations
import ApiTypes.Proofs.Run.Guard
import ApiTypes.Proofs.Document.Load
import ApiTypes.Proofs.Run.Progress
import ApiTypes.Proofs.Run.Conversions
import ApiTypes.Proofs.Run.Calls
import ApiTypes.Proofs.Run.Termination
import ApiTypes.Proofs.Run.Provenance
import ApiTypes.Proofs.Run.Loaded
import ApiTypes.Proofs.Run.Denotation
import ApiTypes.Proofs.Run.Resolutions
import ApiTypes.Proofs.Run.Steps
import ApiTypes.Proofs.Run.InFlight
import ApiTypes.Proofs.Run.Names
import ApiTypes.Proofs.Run.Repetition
import ApiTypes.Proofs.Document.Place
import ApiTypes.Proofs.Document.Objects
import ApiTypes.Proofs.Document.Meeting
import ApiTypes.Proofs.Schema.Keywords
import ApiTypes.Proofs.Schema.Parts
import ApiTypes.Proofs.Schema.Grammar
import ApiTypes.Proofs.Schema.Nodes
import ApiTypes.Proofs.Schema.Paths
import ApiTypes.Proofs.Schema.Properties
import ApiTypes.Proofs.Schema.Nullable
import ApiTypes.Proofs.Run.Shapes
import ApiTypes.Proofs.Run.Built
import ApiTypes.Proofs.Run.WellFormed
import ApiTypes.Proofs.Run.Operands
import ApiTypes.Proofs.Run.Components
import ApiTypes.Proofs.Conversion.Value
import ApiTypes.Proofs.Run.Allowance
import ApiTypes.Proofs.Run.Objects
import ApiTypes.Proofs.Run.Nullable
import ApiTypes.Proofs.Exports
import ApiTypes.Proofs.Identifier
import ApiTypes.Proofs.Document.Reachable
import ApiTypes.Proofs.TypeExpr.Parts
import ApiTypes.Proofs.TypeExpr.Texts
import ApiTypes.Proofs.TypeExpr.Scanner
import ApiTypes.Proofs.TypeExpr.Comment
import ApiTypes.Proofs.TypeExpr.CommentLines
import ApiTypes.Proofs.TypeExpr.Pieces
import ApiTypes.Proofs.TypeExpr.Symbols
import ApiTypes.Proofs.TypeExpr.Reader
import ApiTypes.Proofs.TypeExpr.Operators
import ApiTypes.Proofs.TypeExpr.Precedence
import ApiTypes.Proofs.TypeExpr.Weight
import ApiTypes.Proofs.TypeExpr.Exactness
import ApiTypes.Proofs.Operation.Address
import ApiTypes.Proofs.Operation.Parameters
import ApiTypes.Proofs.Run.Reports
import ApiTypes.Proofs.Run.Dereference
import ApiTypes.Proofs.Run.Parameters
import ApiTypes.Proofs.Document.RoundTrip
import ApiTypes.Proofs.Document.Lookup
import ApiTypes.Proofs.Json.Quoted
import ApiTypes.Proofs.PropertyName
import ApiTypes.Proofs.Document.Names
import ApiTypes.Proofs.Document.Moved
import ApiTypes.Proofs.Document.NormalForm
import ApiTypes.Proofs.PascalCase
