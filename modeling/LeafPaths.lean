import LeafPaths.Command.Run
import LeafPaths.Cst.Catalog
import LeafPaths.Dataset.File
import LeafPaths.Extraction
import LeafPaths.Main
import LeafPaths.Proofs.Ast.Ancestry
import LeafPaths.Proofs.Ast.Embedding
import LeafPaths.Proofs.Ast.Growth
import LeafPaths.Proofs.Ast.Layout
import LeafPaths.Proofs.Ast.Lineage
import LeafPaths.Proofs.Ast.OfPlace
import LeafPaths.Proofs.Ast.Outline
import LeafPaths.Proofs.Ast.Preorder
import LeafPaths.Proofs.Ast.Route
import LeafPaths.Proofs.Command.Formats
import LeafPaths.Proofs.Context.Pairs
import LeafPaths.Proofs.Dataset.Transform
import LeafPaths.Proofs.Extraction
import LeafPaths.Proofs.Extraction.Limits
import LeafPaths.Proofs.Extraction.SameShape
import LeafPaths.Proofs.Extraction.SourceOrder
import LeafPaths.Proofs.Extraction.Subtree
import LeafPaths.Proofs.Path
import LeafPaths.Proofs.Shuffle.Draw
import LeafPaths.Proofs.Shuffle.Order
import LeafPaths.Proofs.Snippet.Aligned
import LeafPaths.Proofs.Snippet.Attempts
import LeafPaths.Proofs.Snippet.Layout
import LeafPaths.Proofs.Snippet.Wrapped
import LeafPaths.Proofs.Json.Numeral
import LeafPaths.Proofs.Json.Reader
import LeafPaths.Proofs.Dataset.Format
import LeafPaths.Proofs.Dataset.File
import LeafPaths.Proofs.Context.Schedule
import LeafPaths.Proofs.Snippet.Violations
import LeafPaths.Proofs.Ast.Trivia
import LeafPaths.Proofs.Extraction.Tokens
import LeafPaths.Proofs.Command.Lines
import LeafPaths.Proofs.Ast.Walk
import LeafPaths.Proofs.Path.Reversal
import LeafPaths.Proofs.Path.StepCount
import LeafPaths.Proofs.Cst.Nodes
import LeafPaths.Proofs.Snippet.Diagnosis
import LeafPaths.Proofs.Cst.Literal
import LeafPaths.Proofs.Extraction.Literals
import LeafPaths.Proofs.Ast.Collection
import LeafPaths.Proofs.Shuffle.Swaps
import LeafPaths.Proofs.Text.Decimal
import LeafPaths.Proofs.Cst.Label
import LeafPaths.Proofs.Settings
