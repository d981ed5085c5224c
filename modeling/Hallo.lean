import Hallo.Text.Ranges
import Hallo.Text.Alphanumeric
import Hallo.Text.Printable
import Hallo.Text.Blank
import Hallo.Text.DecimalDigit
import Hallo.Text.Uppercase
import Hallo.Text.Quoted
import Hallo.Text.Lines
import Hallo.Decimal
import Hallo.Value
import Hallo.Token
import Hallo.Token.Lexer
import Hallo.Parser
import Hallo.Value.Answer
import Hallo.Node
import Hallo.Node.Source
import Hallo.Node.Outline
import Hallo.Node.Parser
import Hallo.Frame
import Hallo.CallStack
import Hallo.Mood
import Hallo.Chance
import Hallo.Worker
import Hallo.Shouter
import Hallo.Event
import Hallo.Fault
import Hallo.Machine
import Hallo.Evaluator
import Hallo.Shell.Arguments
import Hallo.Shell.Folder
import Hallo.Shell
import Hallo.Main
import Hallo.Proofs.Grammar
import Hallo.Proofs.Grammar.Completeness.Expression
import Hallo.Proofs.Grammar.Completeness.Statement
import Hallo.Proofs.Decimal
import Hallo.Proofs.Grammar.Parse
import Hallo.Proofs.Token.Keyword
import Hallo.Proofs.Token.Spelling
import Hallo.Proofs.Token.Scan
import Hallo.Proofs.Token.Coverage
import Hallo.Proofs.Node.Canonical
import Hallo.Proofs.Node.Printing
import Hallo.Proofs.Node.RoundTrip
import Hallo.Proofs.Node.LoopFree
import Hallo.Proofs.Evaluator.Congruent
import Hallo.Proofs.Evaluator.Compositional
import Hallo.Proofs.Evaluator.Quiet
import Hallo.Proofs.Evaluator.Unaffected
import Hallo.Proofs.Semantics
import Hallo.Proofs.Semantics.Meaning
import Hallo.Proofs.Semantics.Means
import Hallo.Proofs.Semantics.Adequacy
import Hallo.Proofs.Evaluator.Consult
import Hallo.Proofs.Sequence
import Hallo.Proofs.Evaluator.Balanced
import Hallo.Proofs.Evaluator.Secluded
import Hallo.Proofs.Evaluator.Local
import Hallo.Proofs.Evaluator.Alike
import Hallo.Proofs.Evaluator.Blind
import Hallo.Proofs.Evaluator.Growth
import Hallo.Proofs.Evaluator.Undisturbed
import Hallo.Proofs.Evaluator.Kept
import Hallo.Proofs.Worker
import Hallo.Proofs.Evaluator.Pace
import Hallo.Proofs.Evaluator.Termination
import Hallo.Proofs.Parser.Complaints
import Hallo.Proofs.Value.Answer
import Hallo.Proofs.Node.Writing
import Hallo.Proofs.Evaluator.WellFormed
import Hallo.Proofs.Evaluator.Safe
import Hallo.Proofs.Evaluator.Questions
import Hallo.Proofs.Shell.ExitCode
import Hallo.Proofs.Evaluator.Answers
import Hallo.Proofs.Shell.Session
import Hallo.Proofs.Shell.TypedProgram
import Hallo.Proofs.Token.Word
import Hallo.Proofs.Token.LineBreak
import Hallo.Proofs.Token.Spaced
import Hallo.Proofs.Parser.Lookahead
import Hallo.Proofs.Grammar.Kind
import Hallo.Proofs.Grammar.ViablePrefix.Expression
import Hallo.Proofs.Grammar.ViablePrefix.Statement
import Hallo.Proofs.Grammar.FirstImpossible
import Hallo.Proofs.Evaluator.CheckIn
import Hallo.Proofs.Worker.Announcements
import Hallo.Proofs.Token.Layout
import Hallo.Proofs.Token.Loosened
import Hallo.Proofs.Value.AnswerLanguage
import Hallo.Proofs.Parser.Parallel
import Hallo.Proofs.Node.Spacing
import Hallo.Proofs.Arithmetic
import Hallo.Proofs.Arithmetic.Writing
import Hallo.Proofs.Arithmetic.Evaluation
import Hallo.Proofs.Node.Position
import Hallo.Proofs.Text.Quoted
import Hallo.Proofs.Text.Joined
import Hallo.Proofs.Value.Inspect
import Hallo.Proofs.Node.Headline
import Hallo.Proofs.Node.Outline
import Hallo.Proofs.Value.Order
import Hallo.Proofs.Evaluator.Comparison
import Hallo.Proofs.Shouter
import Hallo.Proofs.Evaluator.Voice
