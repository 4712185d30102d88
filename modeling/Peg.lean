import Peg.CharClass
import Peg.Expr.Printer
import Peg.LineNotation
import Peg.Load.Bundled
import Peg.Load.Loader
import Peg.Registry
import Peg.Proofs.Compile.Modes
import Peg.Proofs.Grammar.Modes
import Peg.Proofs.Load.CacheHistory
import Peg.Proofs.Load.Transparency
import Peg.Proofs.Recognition.Recognizer
import Peg.Proofs.Grammar.History
import Peg.Proofs.Notation.Escape
import Peg.Proofs.Notation.Names
import Peg.Proofs.Expr.Map
import Peg.Proofs.Notation.Leaf
import Peg.Proofs.Notation.Body
import Peg.Proofs.Notation.Line
import Peg.Proofs.Notation.Reader
import Peg.Proofs.Notation.Unambiguous
import Peg.Proofs.Compile.NormalForm
import Peg.Proofs.Compile.Visited
import Peg.Proofs.Grammar.Errors
import Peg.Proofs.Grammar.Resolution
import Peg.Proofs.Load.Process
import Peg.Proofs.Text.Cut
import Peg.Proofs.Tree.Nodes
import Peg.Proofs.Compile.DocumentOrder
import Peg.Proofs.Expr.FailureDisplay
import Peg.Proofs.Tree.Views
import Peg.Proofs.Draft.Parts
import Peg.Proofs.Draft.Reading
import Peg.Proofs.Expr.Throughout
import Peg.Proofs.Draft.Positions
import Peg.Proofs.Compile.Grouping
import Peg.Proofs.Expr.FixedPoints
import Peg.Proofs.Notation.ClassItems
import Peg.Proofs.Notation.Normalized
import Peg.Proofs.Load.Session
import Peg.Proofs.Text.Occurrence
import Peg.Proofs.Notation.RuleForms
import Peg.Proofs.Load.InlineSource
import Peg.Proofs.Load.ByPath
import Peg.Proofs.Load.Search
import Peg.Proofs.Notation.ByteSlices
import Peg.Proofs.Notation.Rereading
