import Scrapscript.Binary64
import Scrapscript.Binary64.Layout
import Scrapscript.Catalog
import Scrapscript.Catalog.Entry
import Scrapscript.Catalog.Functions
import Scrapscript.Catalog.Names
import Scrapscript.Catalog.Operators
import Scrapscript.Completion
import Scrapscript.Completion.Context
import Scrapscript.Diagnostic
import Scrapscript.Diagnostic.Check
import Scrapscript.Diagnostic.Report
import Scrapscript.Document
import Scrapscript.Grammar
import Scrapscript.Grammar.Cursor
import Scrapscript.Grammar.Expression
import Scrapscript.Grammar.Rule
import Scrapscript.Highlight
import Scrapscript.Hover
import Scrapscript.Json
import Scrapscript.Json.Reader
import Scrapscript.Outline
import Scrapscript.Reference
import Scrapscript.Session
import Scrapscript.Settings
import Scrapscript.Settings.Decode
import Scrapscript.Settings.Store
import Scrapscript.Text
import Scrapscript.Text.LineIndex
import Scrapscript.Text.Position
import Scrapscript.Text.Printable
import Scrapscript.Text.Quoted
import Scrapscript.Token
import Scrapscript.Token.Lexer
import Scrapscript.Tree
import Scrapscript.Tree.Node
import Scrapscript.Tree.Number
import Scrapscript.Tree.Parts
import Scrapscript.Proofs.Grammar.Production
import Scrapscript.Proofs.Grammar.Placed
import Scrapscript.Proofs.Grammar.Rule
import Scrapscript.Proofs.Grammar.Expression
import Scrapscript.Proofs.Grammar.Atom
import Scrapscript.Proofs.Grammar.Operation
import Scrapscript.Proofs.Grammar
import Scrapscript.Proofs.Lossless
import Scrapscript.Proofs.Diagnostic.Report
import Scrapscript.Proofs.Opening
import Scrapscript.Proofs.ErrorNodes
import Scrapscript.Proofs.Settings
import Scrapscript.Proofs.Shape
import Scrapscript.Proofs.Precedence
import Scrapscript.Proofs.Grammar.Alike
import Scrapscript.Proofs.Layout
import Scrapscript.Proofs.Token.Boundary
import Scrapscript.Proofs.Token.Separation
import Scrapscript.Proofs.Grammar.Loop
import Scrapscript.Proofs.Grammar.Splice
import Scrapscript.Proofs.Grammar.Following
import Scrapscript.Proofs.Items
import Scrapscript.Proofs.Composition
import Scrapscript.Proofs.Grammar.Alone
import Scrapscript.Proofs.Grammar.Everywhere
import Scrapscript.Proofs.Grammar.Separable
import Scrapscript.Proofs.Locality
import Scrapscript.Proofs.Grammar.Reading
import Scrapscript.Proofs.Grammar.Enclosed
import Scrapscript.Proofs.Grammar.Completeness
import Scrapscript.Proofs.RenameTarget
import Scrapscript.Proofs.Rendering
import Scrapscript.Proofs.Coordinates
import Scrapscript.Proofs.Token.Language
import Scrapscript.Proofs.Tokenization
import Scrapscript.Proofs.Session
import Scrapscript.Proofs.Diagnostic.Exhaustiveness
import Scrapscript.Proofs.Diagnostic.Pipeline
import Scrapscript.Proofs.Machine.Builder
import Scrapscript.Proofs.Machine.Program
import Scrapscript.Proofs.Machine
import Scrapscript.Proofs.Machine.Faithful
import Scrapscript.Proofs.Machine.Routines
import Scrapscript.Proofs.Machine.Outermost
import Scrapscript.Proofs.Machine.Calls
import Scrapscript.Proofs.Progress
import Scrapscript.Proofs.Construction
import Scrapscript.Proofs.Machine.Debt
import Scrapscript.Proofs.Machine.Cut
import Scrapscript.Proofs.Depth
import Scrapscript.Proofs.Machine.Respelling
import Scrapscript.Proofs.Token.Ending
import Scrapscript.Proofs.Token.Replacement
import Scrapscript.Proofs.Reference
import Scrapscript.Proofs.Edit
import Scrapscript.Proofs.Renaming
import Scrapscript.Proofs.Document
import Scrapscript.Proofs.Text.Pieces
import Scrapscript.Proofs.Highlight
import Scrapscript.Proofs.Tree.Nesting
import Scrapscript.Proofs.Tree.Touching
import Scrapscript.Proofs.Request
import Scrapscript.Proofs.Grammar.Separated
import Scrapscript.Proofs.Diagnostic.Validation
import Scrapscript.Proofs.Outline
import Scrapscript.Proofs.Lookup
import Scrapscript.Proofs.Occurrence
import Scrapscript.Proofs.Grammar.Footing
import Scrapscript.Proofs.MissingPiece
import Scrapscript.Proofs.Grammar.Unbroken
import Scrapscript.Proofs.Grammar.Closing
import Scrapscript.Proofs.Grammar.Sign
import Scrapscript.Proofs.Sign
import Scrapscript.Proofs.Number
import Scrapscript.Proofs.Completion
import Scrapscript.Proofs.Extent
import Scrapscript.Proofs.Construction
