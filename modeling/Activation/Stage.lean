-- SUMMARY: The stages that a selection passes through.

/-!
# Stages

A selection passes through seven stages, always in the same order. The stage
that it reached last tells how far it got.
-/

namespace Activation

/-- A stage of a selection, in the order in which the stages are passed. -/
inductive Stage
  | loaded
  /-- Repeated candidates are gone. -/
  | deduplicated
  /-- Excluded candidates are gone. -/
  | exclusionsApplied
  /-- The candidates stand in activation order. -/
  | ordered
  | filtered
  | notified
  | done
  deriving DecidableEq

namespace Stage

def all : List Stage :=
  [loaded, deduplicated, exclusionsApplied, ordered, filtered, notified, done]

/-- The name of a stage in the log. -/
def name : Stage → String
  | loaded => "loaded"
  | deduplicated => "deduplicated"
  | exclusionsApplied => "exclusions-applied"
  | ordered => "ordered"
  | filtered => "filtered"
  | notified => "notified"
  | done => "done"

end Stage

end Activation
