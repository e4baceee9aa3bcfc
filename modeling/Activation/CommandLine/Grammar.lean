-- SUMMARY: What may stand on the command line.
import Activation.NameSet
import Activation.Text.Blank

/-!
# The grammar of the command line

The program has two commands, each with its options. An option either is a flag or
takes one value. It has a long name, and some have a letter as well. This module
says which options there are, what they are called, and what a command line gives
when it is well-formed.
-/

namespace Activation.CommandLine

/-! ## What a command line gives -/

/-- What every selection needs to know. -/
structure Inputs where
  manifest : String
  index : Option String := none
  features : List String := []
  /-- The properties, by name, in the order given. -/
  properties : List (String × String) := []
  deriving DecidableEq

/-- What is to be done. -/
inductive Command
  /-- Print the modules to activate, without the excluded ones, as lines or as JSON. -/
  | resolve (exclude excludeNames : List String) (json : Bool)
  | check
  deriving DecidableEq

/-- A well-formed command line. -/
structure Invocation where
  verbose : Bool
  inputs : Inputs
  command : Command
  deriving DecidableEq

/-! ## What can be wrong with it -/

/-- What can be wrong with a property. -/
inductive PropertyFailure
  /-- There is no equals sign. -/
  | noValue (raw : String)
  /-- There is nothing before the equals sign. -/
  | noKey (raw : String)
  deriving DecidableEq

def PropertyFailure.message : PropertyFailure → String
  | noValue raw => "expected KEY=VALUE, got '" ++ raw ++ "'"
  | noKey raw => "missing key in '" ++ raw ++ "'"

/-- What can be wrong with a command line. -/
inductive Misuse
  | nothingGiven
  | noCommand
  /-- A word stands in the place of a command and is none. -/
  | unknownCommand
  /-- An option is not known, or there is a word too many. -/
  | unknownArgument
  /-- An option lacks its value, or the value is empty and may not be. -/
  | noValue
  | badProperty (failure : PropertyFailure)
  /-- An option that may be given once is given again. -/
  | repeated
  /-- A flag is given a value. -/
  | valueForFlag
  | noManifest
  deriving DecidableEq

/-- Why reading a command line ends early. -/
inductive Stop
  | help
  | version
  | misuse (m : Misuse)
  deriving DecidableEq

/-! ## Options -/

/-- The name of a command. -/
inductive CommandName
  | resolve
  | check
  deriving DecidableEq

def CommandName.ofString? : String → Option CommandName
  | "resolve" => some .resolve
  | "check" => some .check
  | _ => none

/-- An option without a value. -/
inductive Flag
  | verbose
  | json
  | help
  | version
  deriving DecidableEq

/-- An option with a value. -/
inductive ValueOption
  | index
  | feature
  | property
  | exclude
  | excludeName
  deriving DecidableEq

/-- An option. -/
inductive Opt
  | flag (f : Flag)
  | valued (o : ValueOption)
  deriving DecidableEq

/-- The place of an option: before the command or after it. -/
abbrev Place := Option CommandName

/-- The option of a long name. -/
def Opt.ofName? (place : Place) (name : String) : Option Opt :=
  match place, name with
  | _, "verbose" => some (.flag .verbose)
  | _, "help" => some (.flag .help)
  | none, "version" => some (.flag .version)
  | some _, "index" => some (.valued .index)
  | some _, "feature" => some (.valued .feature)
  | some _, "property" => some (.valued .property)
  | some .resolve, "exclude" => some (.valued .exclude)
  | some .resolve, "exclude-name" => some (.valued .excludeName)
  | some .resolve, "json" => some (.flag .json)
  | _, _ => none

def Opt.ofLetter? (place : Place) (letter : Char) : Option Opt :=
  match place, letter with
  | _, 'v' => some (.flag .verbose)
  | _, 'h' => some (.flag .help)
  | none, 'V' => some (.flag .version)
  | some _, 'f' => some (.valued .feature)
  | some _, 'D' => some (.valued .property)
  | some .resolve, 'x' => some (.valued .exclude)
  | _, _ => none

/-! ## Words -/

/-- Cut a text at its first equals sign. -/
def cutAtEquals (cs : List Char) : List Char × Option (List Char) :=
  match cs.dropWhile (· ≠ '=') with
  | [] => (cs, none)
  | _ :: rest => (cs.takeWhile (· ≠ '='), some rest)

/-- What a word of the command line looks like. -/
inductive Word
  /-- Two dashes: what follows is no option. -/
  | endOfOptions
  /-- Two dashes and a name, perhaps with a value after an equals sign. -/
  | long (name : String) (value : Option String)
  /-- One dash and letters. -/
  | letters (cs : List Char)
  /-- Anything else, a single dash included. -/
  | plain (text : String)
  deriving DecidableEq

/-- What a word looks like. -/
def Word.ofString (word : String) : Word :=
  match word.toList with
  | ['-', '-'] => .endOfOptions
  | '-' :: '-' :: cs =>
    let (name, value) := cutAtEquals cs
    .long (String.ofList name) (value.map String.ofList)
  | '-' :: c :: cs => .letters (c :: cs)
  | _ => .plain word

/-- Read a property: a key and a value with an equals sign between. The key is trimmed and
    may not be empty; the value is left as it stands. -/
def property (raw : String) : Except PropertyFailure (String × String) :=
  match cutAtEquals raw.toList with
  | (_, none) => .error (.noValue raw)
  | (key, some value) =>
    let key := Text.trim (String.ofList key)
    if key = "" then .error (.noKey raw) else .ok (key, String.ofList value)

end Activation.CommandLine
