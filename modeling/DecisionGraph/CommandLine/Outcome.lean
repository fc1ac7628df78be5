import DecisionGraph.CommandLine.Command
import DecisionGraph.Diff.Graphs
import DecisionGraph.Json.Printer
import DecisionGraph.Propagation
import DecisionGraph.Shape.Printer
import DecisionGraph.Shape.Sample

/-!
# What a command prints

`Command.run` is the program without its effects: given what the files hold, it says what is
printed and with which code the program ends. Results go to the output; a summary, issues and the
failure that ended a run are notes beside it.
-/

namespace DecisionGraph

/-- What reading a file gives: its text, or the reason why it cannot be read. -/
abbrev Files := String → Except String String

inductive FileRole
  | graph
  | sample

def FileRole.name : FileRole → String
  | .graph => "graph"
  | .sample => "sample"

inductive Failure
  | unreadable (role : FileRole) (path reason : String)
  | malformed (role : FileRole)
  | unknownNode (id : String)

def Failure.message : Failure → String
  | .unreadable role path reason =>
    "Failed to read " ++ role.name ++ " file '" ++ path ++ "': " ++ reason
  | .malformed .graph => "Failed to parse graph JSON: no graph is written like this"
  | .malformed .sample => "Failed to parse sample JSON: no value is written like this"
  | .unknownNode id => "Node '" ++ id ++ "' is not part of the graph"

structure Outcome where
  exit : Nat
  output : String
  notes : String

namespace Outcome

/-- The end of a run that failed after printing something. -/
def failed (output : String) (failure : Failure) : Outcome :=
  ⟨1, output, "\nError: " ++ failure.message ++ "\n"⟩

/-- Issues, one a line. -/
def listIssues (issues : List Issue) : String :=
  String.join (issues.map fun issue => "  -> " ++ issue.message ++ "\n")

def describe (counts : ChangeCounts) : String :=
  "\n--- Diff Summary ---\nAdded: " ++ toString counts.added ++
    "  Removed: " ++ toString counts.removed ++
    "  Modified: " ++ toString counts.modified ++
    "  Moved: " ++ toString counts.moved ++
    "  Unchanged: " ++ toString counts.unchanged ++ "\n"

/-- The outcome of a comparison: the current graph with its changes. -/
def ofDiff (compared : ComparedGraph) (pretty : Bool) : Outcome :=
  let json := compared.toJson
  { exit := 0
    output := (if pretty then json.pretty else json.compact) ++ "\n"
    notes := describe compared.counts ++ listIssues compared.issues }

def describeShapes (node : Node) (shapes : NodeShapes) : String :=
  node.id ++ " (" ++ node.kind ++ ", " ++ node.name ++ ")\n" ++
    "  input:  " ++ shapes.input.print ++ "\n" ++
    "  output: " ++ shapes.output.print ++ "\n"

/-- The outcome of a propagation: the shapes of all nodes, or of the nodes with one id. There has to
be such a node. -/
def ofPropagation (graph : Graph) (result : Propagation) (only : Option String) : Outcome :=
  let wanted := graph.nodes.filter fun node => only.all (· == node.id)
  let output := String.join (wanted.filterMap fun node =>
    (result.node? node.id).map (describeShapes node))
  match only.filter fun id => (result.node? id).isNone with
  | some id => failed output (.unknownNode id)
  | none => ⟨0, output, listIssues result.issues⟩

def usage : String :=
  "Usage: decision-graph diff PREVIOUS CURRENT [--position-threshold PIXELS] [--pretty]\n" ++
  "       decision-graph types GRAPH [--sample FILE] [--node ID]\n"

end Outcome

/-- Reads a file and makes of its text what it should hold. -/
def Files.load {α : Type} (files : Files) (role : FileRole) (read? : String → Option α)
    (path : String) : Except Failure α :=
  match files path with
  | .error reason => .error (.unreadable role path reason)
  | .ok text =>
    match read? text with
    | none => .error (.malformed role)
    | some value => .ok value

namespace Command

/-- The outcome of a command whose files can be read. Every node is worked out anew. -/
def attempt (files : Files) : Command → Except Failure Outcome
  | .diff previous current threshold pretty => do
    let previous ← files.load .graph Graph.parse? previous
    let current ← files.load .graph Graph.parse? current
    let comparison : Comparison := { registry := .builtin, threshold }
    return .ofDiff (comparison.diff previous current) pretty
  | .types path sample only => do
    let graph ← files.load .graph Graph.parse? path
    let sample ← sample.mapM (files.load .sample Json.parse?)
    let environment : Environment := { registry := .builtin, external := sample.map Shape.ofSample }
    let result := environment.propagate graph (graph.nodes.map (·.id)) none
    return .ofPropagation graph result only
  | .help => return ⟨0, Outcome.usage, ""⟩

def run (files : Files) (command : Command) : Outcome :=
  match command.attempt files with
  | .ok outcome => outcome
  | .error failure => .failed "" failure

end Command

/-- The outcome of a command line. One that is no proper command ends with code 2. -/
def Outcome.ofArguments (files : Files) (args : List String) : Outcome :=
  match Command.ofArguments? args with
  | some command => command.run files
  | none => ⟨2, "", Outcome.usage⟩

end DecisionGraph
