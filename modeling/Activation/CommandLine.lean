-- SUMMARY: Reading a whole command line.
import Activation.CommandLine.Arguments

/-!
# Reading a command line

Before the command only flags may stand. Asking for help or for the version ends
the reading at once. `parse` gives the invocation, or the reason why reading ended
early.
-/

namespace Activation.CommandLine

/-- Help on the command at the end of a chain of names. No command has commands of its
    own. -/
def helpOn : List String → Stop
  | [] => .help
  | [name] =>
    if name = "help" ∨ (CommandName.ofString? name).isSome then .help
    else .misuse .unknownCommand
  | _ => .misuse .unknownCommand

/-- Take a flag before the command. -/
def leadingFlag (verbose : Bool) : Flag → Except Stop Bool
  | .help => .error .help
  | .version => .error .version
  | .verbose => if verbose then Stop.because .repeated else .ok true
  | .json => Stop.because .unknownArgument

/-- Take an option with a long name before the command. -/
def leadingLong (verbose : Bool) (name : String) (value : Option String) : Except Stop Bool :=
  match Opt.ofName? none name, value with
  | some (.flag f), none => leadingFlag verbose f
  | some (.flag _), some _ => Stop.because .valueForFlag
  | _, _ => Stop.because .unknownArgument

/-- Take flags by their letters before the command. -/
def leadingLetters (verbose : Bool) : List Char → Except Stop Bool
  | [] => .ok verbose
  | c :: rest =>
    match Opt.ofLetter? none c with
    | some (.flag f) => do leadingLetters (← leadingFlag verbose f) rest
    | _ => Stop.because .unknownArgument

/-- Read a command line after two dashes. No command can follow. -/
def afterOptions (verbose : Bool) : List String → Except Stop Invocation
  | [] => Stop.because (if verbose then .noCommand else .nothingGiven)
  | word :: _ =>
    if word = "help" ∨ (CommandName.ofString? word).isSome then Stop.because .unknownArgument
    else Stop.because .unknownCommand

/-- Read a command line up to its command and beyond. -/
def parseFrom (environment : List (String × String)) (verbose : Bool) :
    List String → Except Stop Invocation
  | [] => Stop.because (if verbose then .noCommand else .nothingGiven)
  | word :: rest =>
    match CommandName.ofString? word with
    | some command => invocation command verbose rest environment
    | none =>
      match Word.ofString word with
      | .endOfOptions => afterOptions verbose rest
      | .long name value => do
        parseFrom environment (← leadingLong verbose name value) rest
      | .letters cs => do parseFrom environment (← leadingLetters verbose cs) rest
      | .plain text => if text = "help" then .error (helpOn rest) else Stop.because .unknownCommand

/-- The invocation of a command line and an environment. -/
def parse (words : List String) (environment : List (String × String)) :
    Except Stop Invocation :=
  parseFrom environment false words

end Activation.CommandLine
