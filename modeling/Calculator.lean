import Calculator.Main
import Calculator.Number.Numeral.Lemmas
import Calculator.Number.Numeral.Positional
import Calculator.Number.Integer.Lemmas
import Calculator.Proofs.Date
import Calculator.Proofs.Eval.Assigning
import Calculator.Proofs.Eval.Congruence
import Calculator.Proofs.Eval.Ending
import Calculator.Proofs.Eval.Exact
import Calculator.Proofs.Eval.Exiting
import Calculator.Proofs.Eval.Likeness
import Calculator.Proofs.Eval.Looping
import Calculator.Proofs.Eval.Reaching
import Calculator.Proofs.Eval.Scoping
import Calculator.Proofs.Eval.Tracing
import Calculator.Proofs.Number.Shortest
import Calculator.Proofs.Session.Joining
import Calculator.Proofs.Session.LastResult
import Calculator.Proofs.Session.Modes
import Calculator.Proofs.Session.Operators
import Calculator.Proofs.Session.ReadingBack
import Calculator.Proofs.Shell
import Calculator.Proofs.Text.Decoding
import Calculator.Proofs.Text.Grouping
import Calculator.Proofs.Text.Joining
import Calculator.Proofs.Text.Pieces
import Calculator.Proofs.Token.Appending
import Calculator.Proofs.Token.Covering
import Calculator.Proofs.Token.Ending
import Calculator.Proofs.Token.LongestMatch
import Calculator.Proofs.Token.Placing
import Calculator.Proofs.Token.Respacing
import Calculator.Proofs.Token.Scanning
import Calculator.Proofs.Token.Single
import Calculator.Proofs.Token.Spacing
import Calculator.Proofs.Token.Stream
import Calculator.Proofs.Token.Table
import Calculator.Proofs.Token.Words
import Calculator.Proofs.Tree.Acceptance
import Calculator.Proofs.Tree.Appending
import Calculator.Proofs.Tree.Chain
import Calculator.Proofs.Tree.Completeness.Expressions
import Calculator.Proofs.Tree.Completeness.Statements
import Calculator.Proofs.Tree.Errors
import Calculator.Proofs.Tree.Finishing
import Calculator.Proofs.Tree.Grammar
import Calculator.Proofs.Tree.Lines
import Calculator.Proofs.Tree.Precedence
import Calculator.Proofs.Tree.Reading
import Calculator.Proofs.Tree.Respacing
import Calculator.Proofs.Tree.Refusal
import Calculator.Proofs.Tree.Rereading
import Calculator.Proofs.Tree.Selecting
import Calculator.Proofs.Tree.Shape
import Calculator.Proofs.Tree.Soundness.Expressions
import Calculator.Proofs.Tree.Soundness.Statements
import Calculator.Proofs.Tree.Spelling
import Calculator.Proofs.Tree.Writing
import Calculator.Proofs.Tree.Yield
import Calculator.Proofs.Value.Days
import Calculator.Proofs.Value.Dispatch
import Calculator.Proofs.Value.Exact
import Calculator.Proofs.Value.Flavors
import Calculator.Proofs.Value.Floats
import Calculator.Proofs.Value.Grouping
import Calculator.Proofs.Value.Likeness
import Calculator.Proofs.Value.Literals
import Calculator.Proofs.Value.Order
import Calculator.Proofs.Value.Places
import Calculator.Proofs.Value.Ring
import Calculator.Proofs.Value.Writing
import Calculator.Shell
import Calculator.Tree.Text
import Calculator.Value.Equality
