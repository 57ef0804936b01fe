import SharpClient.Main
import SharpClient.Proofs.Outcome
import SharpClient.Proofs.Selection.Expansion
import SharpClient.Proofs.Selection.Visited
import SharpClient.Proofs.Declaration.MemberNames
import SharpClient.Proofs.Selection.Held
import SharpClient.Proofs.Selection.ResponsePaths
import SharpClient.Proofs.Document.BlockString
import SharpClient.Proofs.Document.IndentedScan
import SharpClient.Proofs.Document.Source
import SharpClient.Proofs.Declaration.Literal
import SharpClient.Proofs.Operation.Embedding
import SharpClient.Proofs.Operation.ReachedFragments
import SharpClient.Proofs.Selection.Merging
import SharpClient.Proofs.Selection.Inlining
import SharpClient.Proofs.Selection.Repetition
import SharpClient.Proofs.Generator.Modes
import SharpClient.Proofs.Declaration.References
import SharpClient.Proofs.Generator.FileLayout
import SharpClient.Proofs.Generator.Declarations
import SharpClient.Proofs.Schema.Closed
import SharpClient.Proofs.Generator.DeclaredTypes
import SharpClient.Proofs.Generator.DeclarationNames
import SharpClient.Proofs.Operation.Dependencies
import SharpClient.Proofs.Operation.ClosedDocument
import SharpClient.Proofs.Operation.Shape
import SharpClient.Proofs.CommandLine.WrittenFile
import SharpClient.Proofs.Files.Sources
import SharpClient.Proofs.Client.Endpoints
import SharpClient.Proofs.Selection.Nesting
import SharpClient.Proofs.Selection.Ending
import SharpClient.Proofs.Declaration.Appending
import SharpClient.Proofs.FieldType.Wrappers
import SharpClient.Proofs.Naming.Words
import SharpClient.Proofs.Naming.PascalCase
import SharpClient.Proofs.Naming.DerivedNames
import SharpClient.Proofs.Config.Overrides
import SharpClient.Proofs.Operation.Variables
import SharpClient.Proofs.Declaration.Tokens
import SharpClient.Proofs.Operation.MethodBodies
import SharpClient.Proofs.Generator.ClientMethods
import SharpClient.Proofs.Declaration.OnePass
import SharpClient.Proofs.CommandLine.Supply
