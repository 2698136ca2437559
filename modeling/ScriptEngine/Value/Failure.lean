import ScriptEngine.Source.Lines
import ScriptEngine.Token.Listing
import ScriptEngine.Value.Display

/-!
# Runtime errors

Why a script cannot go on, with the wordings of the message, of the one-line
form and of the report. The wordings show values, so they depend on the heap.
How a report is laid out around the source is not said here, only its headline
and the remark at the place of the error.
-/

set_option autoImplicit false

namespace ScriptEngine

/-- Why a jump out of a loop or to its next pass is impossible. -/
inductive JumpFailure where
  | noContinueTarget
  | noBreakTarget
  | tooFewCompounds (remaining : Nat)
  | invalidBreakCount
deriving DecidableEq, Repr

def JumpFailure.message : JumpFailure → String
  | noContinueTarget => "No jump targets defined for continue"
  | noBreakTarget => "No jump targets defined for break"
  | tooFewCompounds remaining =>
      "Too few nested compounds to break out of (" ++ toString remaining ++ " more needed)"
  | invalidBreakCount => "Invalid number of nested breaks"

def JumpFailure.dump : JumpFailure → Dump
  | noContinueTarget => .atom "NoContinueTarget"
  | noBreakTarget => .atom "NoBreakTarget"
  | tooFewCompounds remaining =>
      .fields "TooFewCompounds" [("remaining", .atom (toString remaining))]
  | invalidBreakCount => .atom "InvalidBreakCount"

/-- A span of time as debug output shows it: zero in nanoseconds, less than a
second in milliseconds, and more in seconds with only the decimals it needs. -/
def durationText (milliseconds : Nat) : String :=
  if milliseconds = 0 then "0ns"
  else if milliseconds < 1000 then toString milliseconds ++ "ms"
  else
    let rest := milliseconds % 1000
    let decimals :=
      ((Nat.toDigits 10 (1000 + rest)).drop 1).reverse.dropWhile (· = '0') |>.reverse
    let fraction := if rest = 0 then "" else "." ++ String.ofList decimals
    toString (milliseconds / 1000) ++ fraction ++ "s"

/-- Why a script cannot go on. -/
inductive RuntimeCause where
  | nonNumeric (operand : Value)
  | nonNumerics (left right : Value)
  | nonAddable (left right : Value)
  | nonComparable (left right : Value)
  | invalidAccess (name : String)
  | undefinedMember (name : String)
  | nonRecord (value : Value)
  | invalidCallee (value : Value)
  | invalidArgumentCount (actual expected : Nat)
  | invalidArgument (value : Value)
  | nonIterable (value : Value)
  | nonIndexable (value : Value)
  | indexOutOfRange (index : Value) (length : Nat)
  | undefinedScope
  | jump (failure : JumpFailure)
  | borrowedNamespace
  | timeLimit (milliseconds : Nat)
  | notStopped
  | unbalancedResults (count : Nat)

/-- A cause with the place in the source where it arose, if one is known. -/
structure RuntimeError where
  cause : RuntimeCause
  span : Option Span

namespace RuntimeError

def unplaced (cause : RuntimeCause) : RuntimeError := ⟨cause, none⟩

def placed (cause : RuntimeCause) (span : Span) : RuntimeError := ⟨cause, some span⟩

def withDefaultSpan (failure : RuntimeError) (span : Span) : RuntimeError :=
  { failure with span := some (failure.span.getD span) }

end RuntimeError

namespace RuntimeCause

def code : RuntimeCause → String
  | nonNumeric _ => "RT001"
  | nonNumerics .. => "RT002"
  | nonAddable .. => "RT003"
  | nonComparable .. => "RT004"
  | invalidAccess _ => "RT005"
  | undefinedMember _ => "RT006"
  | nonRecord _ => "RT007"
  | invalidCallee _ => "RT008"
  | invalidArgumentCount .. => "RT009"
  | invalidArgument _ => "RT010"
  | nonIterable _ => "RT011"
  | nonIndexable _ => "RT012"
  | indexOutOfRange .. => "RT013"
  | undefinedScope => "RT014"
  | jump _ => "RT015"
  | borrowedNamespace => "RT016"
  | timeLimit _ => "RT017"
  | notStopped => "RT018"
  | unbalancedResults _ => "RT019"

def message (heap : Heap) : RuntimeCause → String
  | nonNumeric operand => "Non-Number \x7bUnary\x7d: " ++ heap.text operand
  | nonNumerics left right =>
      "Non-Numbers \x7bBinary\x7d: [" ++ heap.text left ++ " , " ++ heap.text right ++ "]"
  | nonAddable left right =>
      "Non-Numbers/Non-Texts/Non-Arrays \x7bBinary\x7d: [" ++ heap.text left ++ " , " ++
        heap.text right ++ "]"
  | nonComparable left right =>
      "Non-Comparable \x7bBinary\x7d: [" ++ heap.text left ++ " , " ++ heap.text right ++ "]"
  | invalidAccess name => "Invalid Access: " ++ name
  | undefinedMember name => "Undefined Member: " ++ name
  | nonRecord value => "Non-Record: " ++ heap.text value
  | invalidCallee value => "Invalid Callee: " ++ heap.text value
  | invalidArgumentCount actual expected =>
      "Invalid Argument Count: " ++ toString actual ++ " of " ++ toString expected
  | invalidArgument value => "Invalid Argument: " ++ heap.text value
  | nonIterable value => "Non-Iterable: " ++ heap.text value
  | nonIndexable value => "Non-Indexable: " ++ heap.text value
  | indexOutOfRange index length =>
      "Index Out Of Range: " ++ heap.text index ++ " of " ++ toString length
  | undefinedScope => "Undefined Scope: `self` is not available in this call"
  | jump failure => failure.message
  | borrowedNamespace => "Context does not own its namespace"
  | timeLimit milliseconds =>
      "Script exceeded the execution time limit of " ++ durationText milliseconds
  | notStopped => "Process is still running a script"
  | unbalancedResults count =>
      "Expression left " ++ toString count ++ " results instead of one"

def headlineAndRemark (heap : Heap) : RuntimeCause → String × String
  | nonNumeric operand =>
      ("Expected a single numeric operand", operand.typeName ++ " is not a number")
  | nonNumerics left right =>
      ("Expected both operands to be numeric",
        "One or both of " ++ left.typeName ++ " and " ++ right.typeName ++ " is not numeric")
  | nonAddable left right =>
      ("Expected both operands to be numbers, texts or arrays",
        left.typeName ++ " and " ++ right.typeName ++ " cannot be added")
  | nonComparable left right =>
      ("Expected two numbers or two texts",
        left.typeName ++ " and " ++ right.typeName ++ " have no ordering")
  | invalidAccess name =>
      ("Attempted to access a name that is not defined", name ++ " is not defined here")
  | undefinedMember name =>
      ("Attempted to access an undefined member of a record",
        "The `" ++ name ++ "` member is not defined")
  | nonRecord value =>
      ("Attempted to access a member of a non-record value", value.typeName ++ " has no members")
  | invalidCallee value =>
      ("Attempted to call a value that is not callable", value.typeName ++ " is not callable")
  | invalidArgumentCount actual expected =>
      ("Attempted to call a function with the wrong number of arguments",
        "Function has " ++ toString expected ++ " parameters but got " ++ toString actual ++
          " arguments instead")
  | invalidArgument value => ("Invalid argument", heap.text value ++ " is not accepted here")
  | nonIterable value =>
      ("Expected an array, text or record", value.typeName ++ " cannot be iterated")
  | nonIndexable value =>
      ("Attempted to index a value that has no elements", value.typeName ++ " cannot be indexed")
  | indexOutOfRange index length =>
      ("Index out of range",
        "Index " ++ heap.text index ++ " is outside a sequence of length " ++ toString length)
  | cause => ("Script aborted", cause.message heap)

def dump (heap : Heap) : RuntimeCause → Dump
  | nonNumeric operand => .call "NonNumeric" [heap.dump operand]
  | nonNumerics left right => .call "NonNumerics" [heap.dump left, heap.dump right]
  | nonAddable left right => .call "NonAddable" [heap.dump left, heap.dump right]
  | nonComparable left right => .call "NonComparable" [heap.dump left, heap.dump right]
  | invalidAccess name => .call "InvalidAccess" [.text name]
  | undefinedMember name => .call "UndefinedMember" [.text name]
  | nonRecord value => .call "NonRecord" [heap.dump value]
  | invalidCallee value => .call "InvalidCallee" [heap.dump value]
  | invalidArgumentCount actual expected =>
      .fields "InvalidArgumentCount"
        [("actual", .atom (toString actual)), ("expected", .atom (toString expected))]
  | invalidArgument value => .call "InvalidArgument" [heap.dump value]
  | nonIterable value => .call "NonIterable" [heap.dump value]
  | nonIndexable value => .call "NonIndexable" [heap.dump value]
  | indexOutOfRange index length =>
      .fields "IndexOutOfRange"
        [("index", heap.dump index), ("length", .atom (toString length))]
  | undefinedScope => .atom "UndefinedScope"
  | jump failure => .call "Jump" [failure.dump]
  | borrowedNamespace => .call "Ownership" [.atom "OwnershipError"]
  | timeLimit milliseconds => .call "Hang" [.atom (durationText milliseconds)]
  | notStopped => .atom "NotStopped"
  | unbalancedResults count => .call "UnbalancedResults" [.atom (toString count)]

end RuntimeCause

namespace RuntimeError

/-- The one-line form: the line number, if the place is known, and the message. -/
def oneLine (failure : RuntimeError) (heap : Heap) (lines : LineTable) : String :=
  match failure.span with
  | some span =>
      "(" ++ toString (lines.lineOf span) ++ ") [Runtime] " ++ failure.cause.message heap
  | none => "[Runtime] " ++ failure.cause.message heap

def title (failure : RuntimeError) (heap : Heap) : String :=
  "[" ++ failure.cause.code ++ "] Error: " ++ (failure.cause.headlineAndRemark heap).1

/-- The place that a report shows: the beginning of the source, if the error has
no place. -/
def reportedSpan (failure : RuntimeError) : Span :=
  failure.span.getD (Span.between 0 0)

/-- What a report says at the place of the error. It says nothing if the place is
not in the source that it is made with, as that of an error in another script. -/
def remark? (failure : RuntimeError) (heap : Heap) (source : String) : Option String :=
  if failure.reportedSpan.Within source then some (failure.cause.headlineAndRemark heap).2
  else none

def dump (failure : RuntimeError) (heap : Heap) : Dump :=
  .fields "RuntimeError"
    [("kind", failure.cause.dump heap), ("span", .option (failure.span.map Span.dump))]

end RuntimeError

end ScriptEngine
