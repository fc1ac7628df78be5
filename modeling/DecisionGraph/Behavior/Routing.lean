import DecisionGraph.Shape.Merge
import DecisionGraph.Behavior.Basic

/-!
# Mapping input and output

Expression, table and decision nodes share the options that select a part of the input, loop over
its items, and put the output in its place.
-/

namespace DecisionGraph.Routing

/-- The shape that a node works on: the selected part of the input, or one of its items. -/
def workingInput (options : Routing) (node : String) (input : Shape) : Shape × List Issue :=
  let (selected, issues) := match options.selection? with
    | some source => typeOrReport node input source
    | none => (input, [])
  (if options.loops then selected.element else selected, issues)

/-- The shape that a node puts out, given what it determined: an array of it when looping, under the
output path, and merged into the input when that passes through. -/
def workingOutput (options : Routing) (input determined : Shape) : Shape :=
  let result := if options.loops then .array determined else determined
  let placed := match options.target? with
    | some path => Shape.empty.set path result
    | none => result
  if options.passesThrough then input.merge placed else placed

/-- The options of two nodes, compared. -/
def compared (previous current : Routing) : List (String × Option FieldChange) :=
  let mode (options : Routing) := some (options.executionMode.getD .single).tag
  [("executionMode", FieldChange.ofTexts? (mode previous) (mode current)),
    ("inputField", FieldChange.ofTexts? previous.inputField current.inputField),
    ("outputPath", FieldChange.ofTexts? previous.outputPath current.outputPath),
    ("passThrough", FieldChange.ofFlags? previous.passThrough current.passThrough)]

end DecisionGraph.Routing
