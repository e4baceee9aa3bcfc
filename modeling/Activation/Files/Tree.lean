-- SUMMARY: A directory tree held in memory, as files that can be read.
import Activation.Files
import Activation.Text.Tokens

/-!
# Directory trees

A tree lists its files and directories by the names that lead to them from its top.
Paths are relative to the top and resolved name by name: a single dot stays, two dots
go up, and every name but the last has to lead to a directory. Above the top there
are directories in which nothing is known to stand.
-/

namespace Activation.Files

/-- What stands in a tree. -/
inductive Entry
  /-- A file, with its text if its bytes are valid UTF-8. -/
  | file (text : Option String)
  | directory
  deriving DecidableEq

/-- A directory tree. -/
structure Tree where
  /-- The entries, each with the names that lead to it. -/
  entries : List (List String × Entry) := []

/-- A place that a path leads to. -/
inductive Place
  /-- A place above the top of the tree. -/
  | above
  /-- A place in the tree, with the names that lead to it, the innermost first. -/
  | within (names : List String)
  deriving DecidableEq

/-- The directory around a place. -/
def Place.parent : Place → Place
  | above => above
  | within [] => above
  | within (_ :: outer) => within outer

namespace Tree

def names (path : String) : List String :=
  (Text.pieces '/' path.toList).map String.ofList

/-- A tree from the paths of its entries. -/
def ofList (entries : List (String × Entry)) : Tree where
  entries := entries.map fun (path, e) => (names path, e)

/-- What stands at a place of a tree, if anything does. Directories around an entry need no
    entries of their own. -/
def find? (tree : Tree) : Place → Option Entry
  | .above => some .directory
  | .within [] => some .directory
  | .within names =>
    match tree.entries.find? fun e => e.1 = names.reverse with
    | some (_, e) => some e
    | none =>
      if tree.entries.any fun e => names.reverse.isPrefixOf e.1 then some .directory else none

/-- Go from a directory to what stands in it under a name. -/
def enter (tree : Tree) (place : Place) (name : String) : Except FileFailure Place :=
  if name = "" ∨ name = "." then .ok place
  else if name = ".." then .ok place.parent
  else if 255 < name.utf8ByteSize then .error .nameTooLong
  else
    match place with
    | .above => .error .notFound
    | .within outer =>
      match tree.find? (.within (name :: outer)) with
      | some _ => .ok (.within (name :: outer))
      | none => .error .notFound

/-- Follow one more name from a place, which has to be a directory. -/
def follow (tree : Tree) (place : Place) (name : String) : Except FileFailure Place :=
  match tree.find? place with
  | some .directory => tree.enter place name
  | _ => .error .notDirectory

/-- The place that a path leads to. The empty path leads nowhere. -/
def resolve (tree : Tree) (path : String) : Except FileFailure Place :=
  if '\x00' ∈ path.toList then .error .nullInPath
  else if path = "" then .error .notFound
  else if 4095 < path.utf8ByteSize then .error .nameTooLong
  else
    match names path with
    | "" :: rest => rest.foldlM tree.follow .above
    | all => all.foldlM tree.follow (.within [])

/-- The text at a path. -/
def read (tree : Tree) (path : String) : Except FileFailure String := do
  match tree.find? (← tree.resolve path) with
  | some (.file (some text)) => .ok text
  | some (.file none) => .error .invalidText
  | some .directory => .error .isDirectory
  | none => .error .notFound

/-- A tree as files that can be read. -/
def files (tree : Tree) : Files where
  read := tree.read

end Tree

end Activation.Files
