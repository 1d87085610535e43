import Scriptlet.Bracket
import Scriptlet.Builtin
import Scriptlet.Builtin.Value
import Scriptlet.CommandLine
import Scriptlet.Dictionary
import Scriptlet.Error
import Scriptlet.Evaluator
import Scriptlet.Expr
import Scriptlet.Expr.Builder
import Scriptlet.FileRequest
import Scriptlet.FileTree
import Scriptlet.Function
import Scriptlet.Host
import Scriptlet.Host.Module
import Scriptlet.Kind
import Scriptlet.Machine
import Scriptlet.Main
import Scriptlet.Number.Exact
import Scriptlet.Number.Layout
import Scriptlet.Number.Reading
import Scriptlet.Number.Shortest
import Scriptlet.Operator
import Scriptlet.OrderedMap
import Scriptlet.Place
import Scriptlet.Proofs.Expr.Reading
import Scriptlet.Proofs.Nesting
import Scriptlet.Proofs.Precedence
import Scriptlet.Session
import Scriptlet.Statement
import Scriptlet.Statement.Reader
import Scriptlet.Store
import Scriptlet.Store.Addition
import Scriptlet.Store.Arithmetic
import Scriptlet.Store.Census
import Scriptlet.Store.Class
import Scriptlet.Store.Closing
import Scriptlet.Store.Comparison
import Scriptlet.Store.Conversion
import Scriptlet.Store.Display
import Scriptlet.Store.Element
import Scriptlet.Store.Equality
import Scriptlet.Store.Operation
import Scriptlet.Store.Scope
import Scriptlet.Text.Blank
import Scriptlet.Text.Quoted
import Scriptlet.Text.Visible
import Scriptlet.Token
import Scriptlet.Token.Lexer
import Scriptlet.TypedArray
import Scriptlet.Value
import Scriptlet.Value.Expect
import Scriptlet.Vec3
import Scriptlet.Proofs.Expr.Grammar
import Scriptlet.Proofs.Expr.Rendering
import Scriptlet.Proofs.Statement.Rendering
import Scriptlet.Proofs.Statement.ReadingBack
import Scriptlet.Proofs.Store.Soundness
import Scriptlet.Proofs.Store.Operations
import Scriptlet.Proofs.Store.Scopes
import Scriptlet.Proofs.Store.Counting
import Scriptlet.Proofs.Store.Leaving
import Scriptlet.Proofs.Store.Lineage
import Scriptlet.Proofs.Store.Templates
import Scriptlet.Proofs.Evaluation.Steps
import Scriptlet.Proofs.Evaluation.Soundness
import Scriptlet.Proofs.Evaluation.Run
import Scriptlet.Proofs.Evaluation.Congruence
import Scriptlet.Proofs.Evaluation.Exits
import Scriptlet.Proofs.Session.GlobalScope
import Scriptlet.Proofs.Evaluation.Executions
import Scriptlet.Proofs.Evaluation.Scripts
import Scriptlet.Proofs.Statement.Grammar
import Scriptlet.Proofs.Evaluation.Refusals
import Scriptlet.Proofs.Expr.Lines
import Scriptlet.Proofs.Statement.Began
import Scriptlet.Proofs.Token.Scanning
import Scriptlet.Proofs.Session.Submissions
import Scriptlet.Proofs.Session.Isolation
import Scriptlet.Proofs.Token.Chunks
import Scriptlet.Proofs.Evaluation.Kept
import Scriptlet.Proofs.Session.LineByLine
import Scriptlet.Proofs.Token.Texts
import Scriptlet.Proofs.Evaluation.Expressions
import Scriptlet.Proofs.Expr.Operators
import Scriptlet.Proofs.Evaluation.Arithmetic
import Scriptlet.Proofs.Store.Displayed
import Scriptlet.Proofs.Evaluation.Displayed
import Scriptlet.Proofs.Store.Validity
import Scriptlet.Proofs.Store.Appending
import Scriptlet.Proofs.Store.Intact
import Scriptlet.Proofs.Store.ErrorLines
import Scriptlet.Proofs.Statement.Lines
import Scriptlet.Proofs.Evaluation.Discipline
import Scriptlet.Proofs.Evaluation.Homing
import Scriptlet.Proofs.Evaluation.Keeping
import Scriptlet.Proofs.Evaluation.Lineage
import Scriptlet.Proofs.Evaluation.Receivers
import Scriptlet.Proofs.Evaluation.Templates
import Scriptlet.Proofs.Evaluation.Confined
import Scriptlet.Proofs.Expr.ErrorLines
import Scriptlet.Proofs.Expr.Signs
import Scriptlet.Proofs.Statement.ErrorLines
import Scriptlet.Proofs.Evaluation.ErrorLines
import Scriptlet.Proofs.Statement.Idle
import Scriptlet.Proofs.Evaluation.Batch
import Scriptlet.Proofs.Evaluation.Variables
import Scriptlet.Proofs.Evaluation.Handles
import Scriptlet.Proofs.Evaluation.Rejections
import Scriptlet.Proofs.Session.Batch
import Scriptlet.Proofs.Evaluation.Sharing
import Scriptlet.Proofs.Number
import Scriptlet.Proofs.Store.Conversions
import Scriptlet.Proofs.Store.Equality
import Scriptlet.Proofs.Store.Comparison
import Scriptlet.Proofs.Store.Definitions
import Scriptlet.Proofs.Store.Inheritance
import Scriptlet.Proofs.Evaluation.Definitions
import Scriptlet.Proofs.Evaluation.Classes
import Scriptlet.Proofs.Session.Lines
import Scriptlet.Proofs.Token.Relexing
import Scriptlet.Proofs.Evaluation.Control
import Scriptlet.Proofs.Evaluation.Returning
import Scriptlet.Proofs.Statement.Else
import Scriptlet.Proofs.Matching
import Scriptlet.Proofs.Store.Teardown
import Scriptlet.Proofs.Token.Folding
import Scriptlet.Proofs.Token.Literals
import Scriptlet.Proofs.Statement.FlatReader
import Scriptlet.Proofs.Statement.Lockstep
import Scriptlet.Proofs.Statement.Faultless
import Scriptlet.Proofs.Splitting
