-- SUMMARY: Reading files, as far as a selection needs it.

/-!
# Files

A selection reads at most two files. `Files` is what it needs to know of the file
system: what reading the file at a path gives. A failure says why a file cannot be
read; two of the reasons mean that there is something at the path after all.
-/

namespace Activation

/-- Why a file cannot be read as text. -/
inductive FileFailure
  | notFound
  /-- The path leads through something that is not a directory. -/
  | notDirectory
  | isDirectory
  | nameTooLong
  | nullInPath
  /-- The bytes of the file are not valid UTF-8. -/
  | invalidText
  | other (text : String)
  deriving DecidableEq

def FileFailure.message : FileFailure → String
  | notFound => "No such file or directory (os error 2)"
  | notDirectory => "Not a directory (os error 20)"
  | isDirectory => "Is a directory (os error 21)"
  | nameTooLong => "File name too long (os error 36)"
  | nullInPath => "file name contained an unexpected NUL byte"
  | invalidText => "stream did not contain valid UTF-8"
  | other text => text

/-- What can be read. -/
structure Files where
  read : String → Except FileFailure String

namespace Files

/-- The files of which it is known what reading them gives. There are no others. -/
def ofList (known : List (String × Except FileFailure String)) : Files where
  read path := (known.lookup path).getD (.error .notFound)

/-- Whether there is something at a path. -/
def isPresent (files : Files) (path : String) : Bool :=
  match files.read path with
  | .ok _ => true
  | .error .isDirectory | .error .invalidText | .error (.other _) => true
  | .error _ => false

end Files

end Activation
