-- SUMMARY: The records that a run writes to its log.
import Activation.NameSet
import Activation.Stage
import Activation.Text.Quoted

/-!
# Log events

Everything that a run reports about itself is one of the events below. An event
has a level, a message and fields; the functions at the end fix their
wording.
-/

namespace Activation

/-- How much a log event matters, the least first. -/
inductive Level
  | trace
  | debug
  | info
  | warn
  deriving DecidableEq

/-- The value of a field of a log event. -/
inductive Field
  | count (n : Nat)
  | text (s : String)
  deriving DecidableEq

/-- What a run reports. -/
inductive Event
  | indexNotFound (path : String)
  /-- A metadata index with so many modules was read. -/
  | indexLoaded (path : String) (modules : Nat)
  /-- A manifest with so many candidates and declared modules was read. -/
  | manifestLoaded (path : String) (candidates modules : Nat)
  | selectionDisabled
  /-- A stage was passed with so many modules left. -/
  | stageComplete (stage : Stage) (modules : Nat)
  /-- An exclusion names no module at all. -/
  | unknownExclusion (name : String)
  | inspecting (id : ModuleId)
  /-- All metadata is read; so many modules had to be inspected. -/
  | metadataRead (inspected : Nat)
  /-- So many candidates were put in order. -/
  | candidatesOrdered (modules : Nat)
  /-- A module was rejected because a feature that it requires is not active. -/
  | missingFeatures (id : ModuleId)
  | candidatesFiltered (filters filtered : Nat)
  | selectionResolved (modules : List ModuleId) (exclusions : NameSet)
  deriving DecidableEq

/-- The name of a level in the log. -/
def Level.name : Level → String
  | trace => "TRACE"
  | debug => "DEBUG"
  | info => "INFO"
  | warn => "WARN"

def Field.render : Field → String
  | count n => toString n
  | text s => s

namespace Event

def level : Event → Level
  | inspecting _ | candidatesFiltered .. => .trace
  | selectionResolved .. => .info
  | unknownExclusion _ => .warn
  | _ => .debug

def message : Event → String
  | indexNotFound _ => "No metadata index found"
  | indexLoaded .. => "Loaded metadata index"
  | manifestLoaded .. => "Loaded manifest"
  | selectionDisabled => "Module selection disabled"
  | stageComplete .. => "Selection stage complete"
  | unknownExclusion _ => "Ignoring exclusion of unknown module"
  | inspecting _ => "Inspecting module metadata"
  | metadataRead _ => "Module metadata read"
  | candidatesOrdered _ => "Ordered candidate modules"
  | missingFeatures _ => "Missing required features"
  | candidatesFiltered _ filtered => s!"Filtered {filtered} modules"
  | selectionResolved .. => "Resolved module selection"

/-- The fields of an event, by name. -/
def fields : Event → List (String × Field)
  | indexNotFound path => [("path", .text path)]
  | indexLoaded path modules => [("path", .text path), ("modules", .count modules)]
  | manifestLoaded path candidates modules =>
    [("path", .text path), ("candidates", .count candidates), ("modules", .count modules)]
  | selectionDisabled => []
  | stageComplete stage modules => [("stage", .text stage.name), ("modules", .count modules)]
  | unknownExclusion name => [("exclusion", .text name)]
  | inspecting id => [("module", .text id)]
  | metadataRead inspected => [("inspected", .count inspected)]
  | candidatesOrdered modules => [("modules", .count modules)]
  | missingFeatures id => [("module", .text id)]
  | candidatesFiltered filters filtered =>
    [("filters", .count filters), ("filtered", .count filtered)]
  | selectionResolved modules exclusions =>
    [("activated", .count modules.length), ("excluded", .count exclusions.size),
     ("modules", .text (Text.quotedList modules)),
     ("exclusions", .text (Text.quotedSet exclusions))]

/-- An event as a line of the log: its level, its message and its fields. -/
def line (e : Event) : String :=
  e.level.name ++ " " ++ e.message ++
    String.join (e.fields.map fun (name, value) => " " ++ name ++ "=" ++ value.render)

end Event

end Activation
