-- SUMMARY: The program as a function of its command line, environment and files.
import Activation.Command

/-!
# The program

The program writes what its command prints to standard output. A failure goes to
standard error and makes the exit code 1. After a command line that is wrong, the usage
goes there and the exit code is 2.
-/

namespace Activation.Program

/-- What a run of the program leaves behind. -/
structure Outcome where
  code : Nat
  stdout : String := ""
  /-- What is written to standard error, the log apart. -/
  stderr : String := ""
  log : List Event := []

def version : String := "modsel 0.1.0\n"

/-- How the program is used. -/
def usage : String :=
  "Usage: modsel [-v] <COMMAND>\n\n" ++
  "Commands:\n" ++
  "  resolve  Print the modules to activate, in activation order\n" ++
  "  check    Run a resolution and report whether it succeeds\n" ++
  "  help     Print this message\n\n" ++
  "Arguments of both commands:\n" ++
  "  <MANIFEST>                  Module manifest [env: MODSEL_MANIFEST]\n" ++
  "  --index <INDEX>             Precomputed metadata index [env: MODSEL_INDEX]\n" ++
  "  -f, --feature <FEATURE>     Active feature (repeatable)\n" ++
  "  -D, --property <KEY=VALUE>  Selector property (repeatable)\n\n" ++
  "Arguments of resolve:\n" ++
  "  -x, --exclude <ID>          Module id to exclude (repeatable)\n" ++
  "  --exclude-name <NAME>       Module name to exclude (repeatable)\n" ++
  "  --json                      Output as JSON for scripting\n"

/-- The outcome of an invocation. -/
def invoke (files : Files) (environment : List (String × String))
    (invocation : CommandLine.Invocation) : Outcome :=
  match (Command.run files environment invocation).exec { world := () } with
  | (.ok stdout, ledger) => { code := 0, stdout, log := ledger.log }
  | (.error failure, ledger) =>
    { code := 1, stderr := "error: " ++ failure.message ++ "\n", log := ledger.log }

/-- The outcome of a command line that gives no invocation. -/
def stopped : CommandLine.Stop → Outcome
  | .help => { code := 0, stdout := usage }
  | .version => { code := 0, stdout := version }
  | .misuse _ => { code := 2, stderr := usage }

/-- The outcome of a command line. -/
def run (words : List String) (environment : List (String × String)) (files : Files) : Outcome :=
  match CommandLine.parse words environment with
  | .ok invocation => invoke files environment invocation
  | .error stop => stopped stop

end Activation.Program
