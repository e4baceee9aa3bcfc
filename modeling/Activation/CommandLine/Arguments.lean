-- SUMMARY: Reading the words after a command.
import Activation.CommandLine.Grammar

/-!
# Arguments of a command

Words are taken one by one. A valued option that has no value of its own takes the
next word if that is not an option. What is taken is kept pending, and is entered
only when the next option or word needs its place; so a mistake in a value is
reported then, and not at all if something unknown comes first. Variables of the
environment stand in for a manifest and an index that are not given.
-/

namespace Activation.CommandLine

/-- What was entered so far. -/
structure Entered where
  verbose : Bool := false
  json : Bool := false
  manifest : Option String := none
  index : Option String := none
  features : List String := []
  properties : List (String × String) := []
  exclude : List String := []
  excludeNames : List String := []
  deriving DecidableEq

/-- What was taken and is still to be entered. -/
inductive Pending
  /-- A valued option, with its value if that was taken. -/
  | option (o : ValueOption) (value : Option String)
  | manifest (path : String)
  deriving DecidableEq

/-- The state between two words. -/
structure Reading where
  entered : Entered := {}
  pending : Option Pending := none
  /-- Whether no more options can follow. -/
  noOptions : Bool := false
  deriving DecidableEq

def Stop.because {α : Type} (m : Misuse) : Except Stop α := .error (.misuse m)

/-- A path, which may not be empty. -/
def path (value : String) : Except Stop String :=
  if value = "" then Stop.because .noValue else .ok value

/-! ## Entering -/

namespace Entered

def option (e : Entered) (o : ValueOption) (value : String) : Except Stop Entered :=
  match o with
  | .index =>
    if e.index.isSome then Stop.because .repeated
    else return { e with index := some (← path value) }
  | .feature => .ok { e with features := e.features ++ [value] }
  | .property =>
    match property value with
    | .ok p => .ok { e with properties := e.properties ++ [p] }
    | .error failure => Stop.because (.badProperty failure)
  | .exclude => .ok { e with exclude := e.exclude ++ [value] }
  | .excludeName => .ok { e with excludeNames := e.excludeNames ++ [value] }

def flag (e : Entered) : Flag → Except Stop Entered
  | .help => .error .help
  | .version => .error .version
  | .verbose => if e.verbose then Stop.because .repeated else .ok { e with verbose := true }
  | .json => if e.json then Stop.because .repeated else .ok { e with json := true }

def manifestPath (e : Entered) (value : String) : Except Stop Entered :=
  return { e with manifest := some (← path value) }

end Entered

/-! ## Taking words -/

namespace Reading

/-- Enter what is pending. -/
def settle (r : Reading) : Except Stop Reading :=
  match r.pending with
  | none => .ok r
  | some (.option _ none) => Stop.because .noValue
  | some (.option o (some value)) =>
    return { r with entered := ← r.entered.option o value, pending := none }
  | some (.manifest value) =>
    return { r with entered := ← r.entered.manifestPath value, pending := none }

/-- Take a flag. -/
def flag (r : Reading) (f : Flag) : Except Stop Reading := do
  let r ← r.settle
  return { r with entered := ← r.entered.flag f }

/-- Take a valued option, with a value that is written together with it or without one. -/
def option (r : Reading) (o : ValueOption) (attached : Option String) : Except Stop Reading := do
  let r ← r.settle
  match attached with
  | some value => return { r with entered := ← r.entered.option o value }
  | none => return { r with pending := some (.option o none) }

/-- Take an option with a long name. -/
def long (command : CommandName) (r : Reading) (name : String) (value : Option String) :
    Except Stop Reading :=
  match Opt.ofName? (some command) name, value with
  | none, _ => Stop.because .unknownArgument
  | some (.flag f), none => r.flag f
  | some (.flag _), some _ => Stop.because .valueForFlag
  | some (.valued o), value => r.option o value

/-- Take options by their letters. What follows the letter of a valued option is its value,
    less an equals sign in front. -/
def letters (command : CommandName) (r : Reading) : List Char → Except Stop Reading
  | [] => .ok r
  | c :: rest =>
    match Opt.ofLetter? (some command) c with
    | none => Stop.because .unknownArgument
    | some (.flag f) => do (← r.flag f).letters command rest
    | some (.valued o) =>
      match rest with
      | [] => r.option o none
      | '=' :: value => r.option o (some (String.ofList value))
      | value => r.option o (some (String.ofList value))

def hasManifest (r : Reading) : Bool :=
  r.entered.manifest.isSome || r.pending matches some (.manifest _)

/-- Take a word that is neither an option nor the value of one. -/
def positional (r : Reading) (word : String) : Except Stop Reading :=
  if r.hasManifest then Stop.because .unknownArgument
  else return { ← r.settle with pending := some (.manifest word) }

/-- Take a word that is no option. -/
def plain (r : Reading) (word : String) : Except Stop Reading :=
  match r.pending with
  | some (.option o none) => .ok { r with pending := some (.option o (some word)) }
  | _ => r.positional word

/-- Take a word. -/
def word (command : CommandName) (r : Reading) (w : String) : Except Stop Reading :=
  if r.noOptions then r.positional w
  else
    match Word.ofString w with
    | .endOfOptions => .ok { r with noOptions := true }
    | .long name value => r.long command name value
    | .letters cs => r.letters command cs
    | .plain text => r.plain text

end Reading

/-! ## The whole -/

def manifestVariable : String := "MODSEL_MANIFEST"

def indexVariable : String := "MODSEL_INDEX"

/-- What the words after a command give, before the environment is asked. -/
def entries (command : CommandName) (words : List String) : Except Stop Entered := do
  let r ← words.foldlM (Reading.word command) {}
  return (← r.settle).entered

/-- A path that was given, or the one in a variable. -/
def orVariable (given : Option String) (name : String) (environment : List (String × String)) :
    Except Stop (Option String) :=
  match given, environment.lookup name with
  | some value, _ => .ok (some value)
  | none, some value => some <$> path value
  | none, none => .ok none

/-- The invocation that the words after a command give. -/
def invocation (command : CommandName) (verbose : Bool) (words : List String)
    (environment : List (String × String)) : Except Stop Invocation := do
  let e ← entries command words
  let manifest ← orVariable e.manifest manifestVariable environment
  let index ← orVariable e.index indexVariable environment
  match manifest with
  | none => Stop.because .noManifest
  | some manifest =>
    return {
      verbose := verbose || e.verbose
      inputs := { manifest, index, features := e.features, properties := e.properties }
      command := match command with
        | .resolve => .resolve e.exclude e.excludeNames e.json
        | .check => .check }

end Activation.CommandLine
