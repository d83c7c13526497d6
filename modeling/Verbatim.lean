import Verbatim.Command.Arguments
import Verbatim.Command.Run
import Verbatim.Command.Shell
import Verbatim.Grammar.Assignment
import Verbatim.Grammar.Basic
import Verbatim.Grammar.Binding
import Verbatim.Grammar.Chain
import Verbatim.Grammar.Class
import Verbatim.Grammar.Context
import Verbatim.Grammar.Declaration
import Verbatim.Grammar.Function
import Verbatim.Grammar.Language
import Verbatim.Grammar.Literal
import Verbatim.Grammar.Loop
import Verbatim.Grammar.Markup
import Verbatim.Grammar.Module
import Verbatim.Grammar.NodeKind
import Verbatim.Grammar.Operand
import Verbatim.Grammar.Operation
import Verbatim.Grammar.Parse
import Verbatim.Grammar.Parser
import Verbatim.Grammar.Productions
import Verbatim.Grammar.Statement
import Verbatim.Grammar.Target
import Verbatim.Main
import Verbatim.Number.Double
import Verbatim.Number.Shortest
import Verbatim.Options.Basic
import Verbatim.Options.Document
import Verbatim.Options.Json
import Verbatim.Parsed
import Verbatim.Proofs.Alike
import Verbatim.Proofs.AsyncCall
import Verbatim.Proofs.Bookkeeping
import Verbatim.Proofs.Braces
import Verbatim.Proofs.Comments
import Verbatim.Proofs.Consumed
import Verbatim.Proofs.Contract
import Verbatim.Proofs.Cooked
import Verbatim.Proofs.Course.Assignment
import Verbatim.Proofs.Course.Basic
import Verbatim.Proofs.Course.Chain
import Verbatim.Proofs.Course.Class
import Verbatim.Proofs.Course.Function
import Verbatim.Proofs.Course.Markup
import Verbatim.Proofs.Course.Operand
import Verbatim.Proofs.Course.Program
import Verbatim.Proofs.Course.Rules
import Verbatim.Proofs.Course.Source
import Verbatim.Proofs.Course.Statement
import Verbatim.Proofs.CoverText
import Verbatim.Proofs.Edits
import Verbatim.Proofs.Entries
import Verbatim.Proofs.Extents
import Verbatim.Proofs.Formed.Basic
import Verbatim.Proofs.Formed.Expression
import Verbatim.Proofs.Formed.Operation
import Verbatim.Proofs.Formed.Statement
import Verbatim.Proofs.Formed.Tree
import Verbatim.Proofs.Grammar.Assignment
import Verbatim.Proofs.Grammar.Basic
import Verbatim.Proofs.Grammar.Binding
import Verbatim.Proofs.Grammar.Chain
import Verbatim.Proofs.Grammar.Class
import Verbatim.Proofs.Grammar.Declaration
import Verbatim.Proofs.Grammar.Function
import Verbatim.Proofs.Grammar.Language
import Verbatim.Proofs.Grammar.Literal
import Verbatim.Proofs.Grammar.Loop
import Verbatim.Proofs.Grammar.Markup
import Verbatim.Proofs.Grammar.Module
import Verbatim.Proofs.Grammar.Operand
import Verbatim.Proofs.Grammar.Operation
import Verbatim.Proofs.Grammar.Statement
import Verbatim.Proofs.Grammar.Target
import Verbatim.Proofs.Held.Basic
import Verbatim.Proofs.Held.Expression
import Verbatim.Proofs.Held.Function
import Verbatim.Proofs.Held.Statement
import Verbatim.Proofs.Jumps
import Verbatim.Proofs.Layout.Atoms
import Verbatim.Proofs.Layout.Basic
import Verbatim.Proofs.Layout.Conversion
import Verbatim.Proofs.Layout.Laid
import Verbatim.Proofs.Layout.Parts
import Verbatim.Proofs.Layout.Shape
import Verbatim.Proofs.Layout.Visit
import Verbatim.Proofs.Legality
import Verbatim.Proofs.LoopHead
import Verbatim.Proofs.Losslessness
import Verbatim.Proofs.Numerals
import Verbatim.Proofs.Openers
import Verbatim.Proofs.Partition
import Verbatim.Proofs.Positions
import Verbatim.Proofs.Progress.Basic
import Verbatim.Proofs.Progress.Expression
import Verbatim.Proofs.Progress.Faults
import Verbatim.Proofs.Progress.Operation
import Verbatim.Proofs.Progress.Statement
import Verbatim.Proofs.Projection.Basic
import Verbatim.Proofs.Projection.Expression
import Verbatim.Proofs.Projection.Source
import Verbatim.Proofs.Projection.Statement
import Verbatim.Proofs.Recorded.Basic
import Verbatim.Proofs.Recorded.Expression
import Verbatim.Proofs.Recorded.Markup
import Verbatim.Proofs.Recorded.Operation
import Verbatim.Proofs.Recorded.Program
import Verbatim.Proofs.Recorded.Statement
import Verbatim.Proofs.Recorded.Tree
import Verbatim.Proofs.References
import Verbatim.Proofs.Rendering
import Verbatim.Proofs.Replacement
import Verbatim.Proofs.Reprint
import Verbatim.Proofs.Resolution
import Verbatim.Proofs.Resolved.Basic
import Verbatim.Proofs.Resolved.Expression
import Verbatim.Proofs.Resolved.Operation
import Verbatim.Proofs.Resolved.Statement
import Verbatim.Proofs.Resolved.Tree
import Verbatim.Proofs.Restoration
import Verbatim.Proofs.Results
import Verbatim.Proofs.Retext
import Verbatim.Proofs.Scan.Again
import Verbatim.Proofs.Scan.Along
import Verbatim.Proofs.Scan.Breaks
import Verbatim.Proofs.Scan.Cursor
import Verbatim.Proofs.Scan.Kept
import Verbatim.Proofs.Scan.Next
import Verbatim.Proofs.Scan.Numeral
import Verbatim.Proofs.Scan.Octal
import Verbatim.Proofs.Scan.Opening
import Verbatim.Proofs.Scan.Places
import Verbatim.Proofs.Scan.Punctuator
import Verbatim.Proofs.Scan.Quotation
import Verbatim.Proofs.Scan.Read
import Verbatim.Proofs.Scan.Regex
import Verbatim.Proofs.Scan.Rendered
import Verbatim.Proofs.Scan.Scanned
import Verbatim.Proofs.Scan.Single
import Verbatim.Proofs.Scan.Trivia
import Verbatim.Proofs.Scan.Word
import Verbatim.Proofs.Separators
import Verbatim.Proofs.Sight
import Verbatim.Proofs.Sites.Basic
import Verbatim.Proofs.Sites.Expression
import Verbatim.Proofs.Sites.Operation
import Verbatim.Proofs.Sites.Statement
import Verbatim.Proofs.Stability
import Verbatim.Proofs.Static.Basic
import Verbatim.Proofs.Static.Expression
import Verbatim.Proofs.Static.Fits
import Verbatim.Proofs.Static.Operation
import Verbatim.Proofs.Static.Operators
import Verbatim.Proofs.Static.Parts
import Verbatim.Proofs.Static.Rules
import Verbatim.Proofs.Static.Statement
import Verbatim.Proofs.Strictness
import Verbatim.Proofs.Suspension
import Verbatim.Proofs.Taking
import Verbatim.Proofs.Targets
import Verbatim.Proofs.Termination
import Verbatim.Proofs.Tolerance
import Verbatim.Proofs.Tracks
import Verbatim.Proofs.Tree.Conversion
import Verbatim.Proofs.Tree.Retouch
import Verbatim.Proofs.Tree.Spans
import Verbatim.Proofs.Tree.Texts
import Verbatim.Proofs.Tree.Throughout
import Verbatim.Proofs.Walk
import Verbatim.Proofs.WebComments
import Verbatim.Proofs.Within.Code
import Verbatim.Proofs.Within.Markup
import Verbatim.Scan.Cursor
import Verbatim.Scan.Numeral
import Verbatim.Scan.Opening
import Verbatim.Scan.Punctuator
import Verbatim.Scan.Quotation
import Verbatim.Scan.Read
import Verbatim.Scan.Regex
import Verbatim.Scan.Scanner
import Verbatim.Scan.Token
import Verbatim.Scan.Trivia
import Verbatim.Scan.Word
import Verbatim.Session
import Verbatim.Source.Fault
import Verbatim.Source.Position
import Verbatim.Text.Character
import Verbatim.Text.Entity
import Verbatim.Text.Hidden
import Verbatim.Text.Letters
import Verbatim.Text.Quoted
import Verbatim.Tree.Basic
import Verbatim.Tree.Edit
import Verbatim.Tree.Leaf
import Verbatim.Tree.Names
import Verbatim.Tree.Operator
import Verbatim.Tree.Print
import Verbatim.Tree.Traverse
