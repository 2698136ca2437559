import ScriptEngine.Main
import ScriptEngine.Proofs.Machine.Execution
import ScriptEngine.Proofs.Machine.HostEvaluation
import ScriptEngine.Proofs.Machine.History
import ScriptEngine.Proofs.Grammar.RoundTrip
import ScriptEngine.Proofs.Grammar.Refusal
import ScriptEngine.Proofs.Script.Links
import ScriptEngine.Proofs.Machine.Globals
import ScriptEngine.Proofs.Machine.Scopes
import ScriptEngine.Proofs.Machine.Suspension
import ScriptEngine.Proofs.Value.Copies
import ScriptEngine.Proofs.Value.ArrayEquality
import ScriptEngine.Proofs.Script.Marks
import ScriptEngine.Proofs.Script.Pushed
import ScriptEngine.Proofs.Grammar.Accounts
import ScriptEngine.Proofs.Grammar.StatementPrinting
import ScriptEngine.Proofs.Token.Lines
import ScriptEngine.Proofs.Grammar.SimpleRoundTrip
import ScriptEngine.Proofs.Grammar.StatementRoundTrip
import ScriptEngine.Proofs.Grammar.Places
import ScriptEngine.Proofs.Machine.Located
import ScriptEngine.Proofs.Machine.Reports
import ScriptEngine.Proofs.Grammar.Derivation
import ScriptEngine.Proofs.Grammar.ExpressionAcceptance
import ScriptEngine.Proofs.Grammar.Acceptance
import ScriptEngine.Proofs.Machine.Breaks
import ScriptEngine.Proofs.Machine.Ownership
import ScriptEngine.Proofs.Machine.Afresh
import ScriptEngine.Proofs.Value.Inheritance
import ScriptEngine.Proofs.Machine.Present
import ScriptEngine.Proofs.Machine.Members
import ScriptEngine.Proofs.Machine.Loops
import ScriptEngine.Proofs.Machine.RecordLoops
import ScriptEngine.Proofs.Evaluation.CallFree
import ScriptEngine.Proofs.Machine.Failing
import ScriptEngine.Proofs.Machine.Receivers
import ScriptEngine.Proofs.Machine.Assignment
import ScriptEngine.Proofs.Token.TextLiterals
import ScriptEngine.Proofs.Token.Joined
import ScriptEngine.Proofs.Grammar.Layout
import ScriptEngine.Proofs.Grammar.ReadBack
import ScriptEngine.Proofs.Token.Unrecognized
import ScriptEngine.Proofs.Guarded.FrontEnd
import ScriptEngine.Proofs.Decimal.Unpacked
import ScriptEngine.Proofs.Decimal.Whole
import ScriptEngine.Proofs.Decimal.Integers
import ScriptEngine.Proofs.Value.Positions
import ScriptEngine.Proofs.Value.Sequences
import ScriptEngine.Proofs.Value.Writes
import ScriptEngine.Proofs.Value.Equivalence
