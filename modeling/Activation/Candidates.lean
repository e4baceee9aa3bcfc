-- SUMMARY: Candidate lists without repeats.
import Activation.NameSet

/-!
# Candidates

Discovery may list a module more than once. `distinct` keeps each id where it
first occurs. Ids are compared as they stand: neither case nor blanks are
ignored.
-/

namespace Activation.Candidates

/-- The ids of a list that are neither in `seen` nor earlier in the list. -/
def distinctFrom (seen : List ModuleId) : List ModuleId → List ModuleId
  | [] => []
  | id :: rest =>
    if id ∈ seen then distinctFrom seen rest
    else id :: distinctFrom (id :: seen) rest

/-- The ids of a list without repeats, in the order of their first occurrences. -/
def distinct (ids : List ModuleId) : List ModuleId :=
  distinctFrom [] ids

end Activation.Candidates
