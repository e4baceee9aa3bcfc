-- SUMMARY: The settings of a selector.
import Activation.Files
import Activation.NameSet
import Activation.Text.Tokens
import Activation.Toml.Decode

/-!
# Settings

Settings say whether selection is switched on and which modules are excluded by
configuration. They may come from a document, from properties and from variables;
what is wrong with them is told together with the place they come from.
-/

namespace Activation

/-- The settings of a selector. -/
structure Settings where
  enabled : Bool := true
  /-- The exclusions, as configured. Each may be a comma-separated list. -/
  exclude : List String := []
  deriving DecidableEq

/-- Why settings cannot be told. -/
inductive SettingsFailure
  /-- The value at a place is neither true nor false. -/
  | notBoolean (origin text : String)
  | unreadable (path : String) (failure : FileFailure)
  | unusable (path : String) (failure : Toml.Failure)
  deriving DecidableEq

namespace SettingsFailure

/-- Where the settings come from. -/
def origin : SettingsFailure → String
  | notBoolean origin _ => origin
  | unreadable path _ => path
  | unusable path _ => path

/-- What is wrong with them. -/
def reason : SettingsFailure → String
  | notBoolean _ text => "expected true or false, got '" ++ text ++ "'"
  | unreadable _ failure => failure.message
  | unusable _ failure => failure.message

def message (f : SettingsFailure) : String :=
  "Invalid selector settings from " ++ f.origin ++ ": " ++ f.reason

end SettingsFailure

def Settings.excludedNames (s : Settings) : NameSet :=
  NameSet.ofList (s.exclude.flatMap Text.tokens)

end Activation
