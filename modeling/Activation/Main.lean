-- SUMMARY: The program on a real system.
import Activation.Program

/-!
# The program on a real system

This module reads the environment and the files that the command line names, and
writes what the program leaves behind. It decides nothing else.
-/

namespace Activation.Main

/-- The variables of the environment that the program looks at. -/
def variableNames : List String :=
  [CommandLine.manifestVariable, CommandLine.indexVariable, Settings.enabledVariable,
   Settings.excludeVariable]

def environment : IO (List (String × String)) := do
  let values ← variableNames.mapM fun name => return (name, ← IO.getEnv name)
  return values.filterMap fun (name, value) => value.map fun text => (name, text)

/-- The number of a system error. Some calls give it with a negative sign. -/
def errorNumber (code : UInt32) : UInt32 :=
  min code (0 - code)

/-- Why the system does not read a file. -/
def failureOf : IO.Error → FileFailure
  | .noFileOrDirectory .. => .notFound
  | .inappropriateType _ code details =>
    match errorNumber code with
    | 20 => .notDirectory
    | 21 => .isDirectory
    | _ => .other details
  | .invalidArgument _ code details =>
    match errorNumber code with
    | 36 => .nameTooLong
    | _ => .other details
  | e => .other (toString e)

/-- What reading a file gives. -/
def readFile (path : String) : IO (Except FileFailure String) := do
  match ← (IO.FS.readBinFile path).toBaseIO with
  | .error e => return .error (failureOf e)
  | .ok bytes =>
    match String.fromUTF8? bytes with
    | some text => return .ok text
    | none => return .error .invalidText

/-- The files that an invocation names. -/
def filesOf (inputs : CommandLine.Inputs) : IO Files := do
  let paths := inputs.manifest :: inputs.index.toList
  return .ofList (← paths.mapM fun path => return (path, ← readFile path))

/-- Write what a run leaves behind, with the part of the log that is asked for. -/
def finish (verbose : Bool) (outcome : Program.Outcome) : IO UInt32 := do
  for event in outcome.log do
    if event.level = .warn ∨ (verbose ∧ event.level ≠ .trace) then
      IO.eprintln event.line
  IO.print outcome.stdout
  IO.eprint outcome.stderr
  return outcome.code.toUInt32

end Activation.Main

open Activation in
/-- Carry out the command line. -/
def main (words : List String) : IO UInt32 := do
  let environment ← Main.environment
  match CommandLine.parse words environment with
  | .error stop => Main.finish false (Program.stopped stop)
  | .ok invocation =>
    let files ← Main.filesOf invocation.inputs
    Main.finish invocation.verbose (Program.invoke files environment invocation)
