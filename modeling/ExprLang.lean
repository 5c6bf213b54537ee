import ExprLang.Error.Report
import ExprLang.Expr.Agreement
import ExprLang.Expr.Printer
import ExprLang.Grammar
import ExprLang.Main
import ExprLang.Scope.Arena
import ExprLang.Text.Line
import ExprLang.Token.Cursor
import ExprLang.Typing
import ExprLang.Proofs.Grammar.Ascriptions
import ExprLang.Proofs.Grammar.Blocks
import ExprLang.Proofs.Grammar.Operands
import ExprLang.Proofs.Grammar.Derivation
import ExprLang.Proofs.Grammar.Programs
import ExprLang.Proofs.Grammar.Soundness
import ExprLang.Proofs.Grammar.Spine
import ExprLang.Proofs.Grammar.Completeness
import ExprLang.Proofs.Grammar.Acceptance
import ExprLang.Proofs.Scope.Extension
import ExprLang.Proofs.Scope.Refinement
import ExprLang.Proofs.Sequence
import ExprLang.Proofs.Nodes
import ExprLang.Proofs.Token.LineBreaks
import ExprLang.Proofs.Typing.Effects
import ExprLang.Proofs.Typing.Agreement
import ExprLang.Proofs.Printing.Lexemes
import ExprLang.Proofs.Printing.Listing
import ExprLang.Proofs.Printing.Spelling
import ExprLang.Proofs.Printing.Operands
import ExprLang.Proofs.Printing.RoundTrip
import ExprLang.Proofs.Printing.Types
import ExprLang.Proofs.Printing.Printed
import ExprLang.Proofs.Printing.Shapes
import ExprLang.Proofs.Grammar.Declarations
import ExprLang.Proofs.Grammar.Yield
import ExprLang.Proofs.Parser.Locality
import ExprLang.Proofs.Grammar.Locality
import ExprLang.Proofs.Parser.Bounds
import ExprLang.Proofs.Grammar.Bounds
import ExprLang.Proofs.Parser.Failure
import ExprLang.Proofs.Grammar.Viability
import ExprLang.Proofs.Grammar.Errors
import ExprLang.Proofs.Grammar.Descent
import ExprLang.Proofs.Grammar.Progress
import ExprLang.Proofs.Typing.Positions
import ExprLang.Proofs.Typing.Causes
import ExprLang.Proofs.Typing.Outcomes
import ExprLang.Proofs.Typing.Runs
import ExprLang.Proofs.Paths
import ExprLang.Proofs.Typing.Entered
import ExprLang.Proofs.Lockstep
import ExprLang.Proofs.Typing.Dependence
import ExprLang.Proofs.Typing.Shape
import ExprLang.Proofs.Grammar.Contract
import ExprLang.Proofs.Typing.OperatorNames
import ExprLang.Proofs.Parser.Likeness
import ExprLang.Proofs.Grammar.Likeness
import ExprLang.Proofs.Parser.Layout
import ExprLang.Proofs.Grammar.Layout
import ExprLang.Proofs.Grammar.Positions
import ExprLang.Proofs.Token.Separators
import ExprLang.Proofs.Grammar.Following
import ExprLang.Proofs.Operator.Precedence
import ExprLang.Proofs.Grammar.Chains
import ExprLang.Proofs.Grammar.Braces
import ExprLang.Proofs.Token.Order
import ExprLang.Proofs.Outline
import ExprLang.Proofs.Grammar.Spans
import ExprLang.Proofs.Grammar.Results
import ExprLang.Proofs.Grammar.Conditionals
import ExprLang.Proofs.Grammar.Terminators
import ExprLang.Proofs.Grammar.Refusals
import ExprLang.Proofs.Grammar.Numerals
import ExprLang.Proofs.Error.Caret
import ExprLang.Proofs.Token.Lines
import ExprLang.Proofs.Token.Advance
import ExprLang.Proofs.Typing.Assignment
import ExprLang.Proofs.Grammar.Surroundings
