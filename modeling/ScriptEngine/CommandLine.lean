import ScriptEngine.Grammar.Statement
import ScriptEngine.Script.Dump
import ScriptEngine.Session.Host

/-!
# The command line

Three commands on a source file: list its tokens, show the script that it
spells, or run it. What a command writes is computed here; reading the file and
writing to the terminal are left to the program.
-/

set_option autoImplicit false

namespace ScriptEngine

/-- What the program is asked to do with a source file. -/
inductive Command where
  | tokenize (format : ListingFormat)
  | parse
  | run (timeLimit : Option Nat)
deriving DecidableEq, Repr

/-- A command with the file that it is for. -/
structure Invocation where
  command : Command
  path : String
deriving DecidableEq, Repr

/-- An error as it is shown to the person at the terminal. -/
structure Report where
  title : String
  remark : Option String
  line : UInt32
deriving DecidableEq, Repr

/-- What a command leaves behind. Lexical errors are written as they are, and at
most one error ends a command with a report. -/
structure CommandResult where
  succeeded : Bool
  output : String
  errors : String
  report : Option Report

namespace Report

/-- The report of a source that is no script, at the line of the failure. -/
def ofParseError (failure : ParseError) (source : String) : Report :=
  ⟨failure.title, failure.remark? source, (LineTable.ofText source).lineOf failure.span⟩

def ofRuntimeError (failure : RuntimeError) (heap : Heap) (source : String) : Report :=
  ⟨failure.title heap, failure.remark? heap source,
    (LineTable.ofText source).lineOf failure.reportedSpan⟩

def text (report : Report) : String :=
  let place := report.title ++ "\n  line " ++ toString report.line
  match report.remark with
  | some remark => place ++ ": " ++ remark ++ "\n"
  | none => place ++ "\n"

end Report

namespace CommandResult

/-- The exit code: zero, or the one for faulty input. -/
def exitCode (result : CommandResult) : UInt8 :=
  if result.succeeded then 0 else 65

/-- A command that failed with a report, after writing something. -/
def refused (output : String) (report : Report) : CommandResult :=
  ⟨false, output, "", some report⟩

end CommandResult

/-- The number of turns after which a run from the command line is given up. -/
def commandTurns : Nat := 1000000000000000

/-- Lists the tokens of a source, and the lexical errors apart from them. -/
def listTokens (format : ListingFormat) (source : String) : CommandResult :=
  let lines := LineTable.ofText source
  let items := LexicalItem.scan source
  let tokenLines := items.filterMap fun
    | .ok token => some (token.listingLine format ++ "\n")
    | .error _ => none
  let errorLines := items.filterMap fun
    | .ok _ => none
    | .error failure => some (failure.listingLine format lines ++ "\n")
  ⟨errorLines.isEmpty, String.join tokenLines, String.join errorLines, none⟩

def showScript (source : String) : CommandResult :=
  match Script.ofSource source with
  | .ok script => ⟨true, script.dump.indented "" ++ "\n", "", none⟩
  | .error failure => .refused "" (.ofParseError failure source)

/-- Runs a source. A run that is not finished leaves nothing to show. -/
def runSource (timeLimit : Option Nat) (source : String) : Option CommandResult :=
  match Script.ofSource source with
  | .error failure => some (.refused "" (.ofParseError failure source))
  | .ok script =>
      match (Session.new timeLimit).run script with
      | .error failure => some (.refused "" (.ofRuntimeError failure .empty source))
      | .ok session =>
          match session.execute commandTurns with
          | (.failed failure, session) =>
              some (.refused session.output (.ofRuntimeError failure session.heap source))
          | (.value (), session) => some ⟨true, session.output, "", none⟩
          | (.unfinished, _) => none

def Command.perform (command : Command) (source : String) : Option CommandResult :=
  match command with
  | .tokenize format => some (listTokens format source)
  | .parse => some (showScript source)
  | .run timeLimit => runSource timeLimit source

namespace Invocation

/-- The parts of a command line that have been read. -/
structure Words where
  positional : List String
  format : Option ListingFormat
  timeLimit : Option Nat

def format? : String → Option ListingFormat
  | "basic" => some .basic
  | "debug" => some .debug
  | _ => none

def readWords : List String → Option Words
  | [] => some ⟨[], none, none⟩
  | "--format" :: name :: rest => do
      let format ← format? name
      let words ← readWords rest
      return { words with format := some format }
  | "--time-limit" :: number :: rest => do
      let limit ← number.toNat?
      let words ← readWords rest
      return { words with timeLimit := some limit }
  | word :: rest => do
      let words ← readWords rest
      if word = "-v" || word = "-vv" || word = "--verbose" then
        return words
      else if word = "--format=basic" then
        return { words with format := some .basic }
      else if word = "--format=debug" then
        return { words with format := some .debug }
      else if word.startsWith "--time-limit=" then
        let limit ← (word.drop "--time-limit=".length).toNat?
        return { words with timeLimit := some limit }
      else if word.startsWith "-" then
        none
      else
        return { words with positional := word :: words.positional }

/-- The command and the file that the arguments name, if they name any. -/
def ofArguments? (arguments : List String) : Option Invocation := do
  let words ← readWords arguments
  match words.positional with
  | ["tokenize", path] => some ⟨.tokenize (words.format.getD .basic), path⟩
  | ["parse", path] => some ⟨.parse, path⟩
  | ["run", path] => some ⟨.run words.timeLimit, path⟩
  | _ => none

end Invocation

end ScriptEngine
