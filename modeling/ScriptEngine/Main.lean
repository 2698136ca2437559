import ScriptEngine.CommandLine

/-!
# The program

Reads the file that the command line names and writes what the command gives. A
script that goes on forever without a turn to end in uses up the stack, and the
system stops the program.
-/

set_option autoImplicit false

open ScriptEngine

def ScriptEngine.usage : String :=
  "usage: tokenize FILE [--format basic|debug] | parse FILE | run FILE [--time-limit MILLISECONDS]"

/-- The exit code of a program that the system has stopped. -/
def ScriptEngine.stoppedCode : UInt32 := 134

def main (arguments : List String) : IO UInt32 := do
  match Invocation.ofArguments? arguments with
  | none =>
      IO.eprintln usage
      return 2
  | some invocation =>
      let source ← IO.FS.readFile invocation.path
      match invocation.command.perform source with
      | none => return stoppedCode
      | some result =>
          IO.print result.output
          IO.eprint result.errors
          match result.report with
          | some report => IO.eprint report.text
          | none => pure ()
          return result.exitCode.toUInt32
