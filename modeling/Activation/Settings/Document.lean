-- SUMMARY: Reading settings from a document.
import Activation.Settings

/-!
# Settings documents

Settings are kept in the table `selector` of a document. Everything beside it is
ignored, and so are names in the table that mean nothing. A missing file has the
default settings.
-/

namespace Activation.Settings

/-- The exclusions of a document: one text or a list of texts. -/
def readExclude : Toml.Value → Except Toml.Misfit (List String)
  | .string s => .ok [s]
  | v => v.toTexts.mapError fun _ => .noVariant

/-- Settings as a record of a document. Other names are ignored. -/
def shape : Toml.Shape Settings where
  columns :=
    [{ name := "enabled", enter := fun s v => return { s with enabled := ← v.toBool } },
     { name := "exclude", enter := fun s v => return { s with exclude := ← readExclude v } }]
  isStrict := false
  initial := {}

/-- A document that holds settings in its table `selector`, beside anything else. -/
def documentShape : Toml.Shape Settings where
  columns := [{ name := "selector", enter := fun _ v => shape.ofValue v }]
  isStrict := false
  initial := {}

def parse (text : String) : Except Toml.Failure Settings :=
  documentShape.parse text

/-- The settings of a file. A missing file has the default settings. -/
def load (files : Files) (path : String) : Except SettingsFailure Settings :=
  match files.read path with
  | .error failure =>
    if files.isPresent path then .error (.unreadable path failure) else .ok {}
  | .ok text => (parse text).mapError (.unusable path)

end Activation.Settings
