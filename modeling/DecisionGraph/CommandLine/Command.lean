import DecisionGraph.Double.Reading

/-!
# Commands

What the program can be asked to do, and how a list of arguments asks for it. `gather` goes
through the arguments of a command from left to right; an `ArgumentForm` says which options the
command has and what each argument adds to what was gathered before. An argument that has no
place, an option given twice, and a value that is missing or does not fit are refused.

Options are written `--name value` or `--name=value`, in any place. Behind a lone `--` there are no
options any more.
-/

namespace DecisionGraph

inductive Command
  /-- Compare the graphs in two files. -/
  | diff (previous current : String) (threshold : Option Float) (pretty : Bool)
  /-- Work out the types of the graph in a file, of all its nodes or only of one. -/
  | types (graph : String) (sample node : Option String)
  | help

/-- How a command takes its arguments. Each part adds an argument to what was gathered before, or
refuses it. -/
structure ArgumentForm (σ : Type) where
  /-- Takes an argument that is no option. -/
  plain : String → σ → Option σ
  /-- The options that have no value. -/
  flag : String → Option (σ → Option σ)
  /-- The options that have one. -/
  valued : String → Option (String → σ → Option σ)

/-- What came of the arguments of a command. -/
inductive Gathered (σ : Type)
  | all (value : σ)
  /-- Help was asked for before any was refused. -/
  | help

/-- Whether an argument is written like an option. A lone hyphen is not. -/
def isOption (text : String) : Bool :=
  match text.toList with
  | '-' :: _ :: _ => true
  | _ => false

/-- The name of an option and the value behind its first equals sign. -/
def splitOption? (text : String) : Option (String × Option String) :=
  match text.toList with
  | '-' :: '-' :: rest =>
    let (name, behind) := rest.span (· != '=')
    some (String.ofList name, if behind.isEmpty then none else some (String.ofList (behind.drop 1)))
  | _ => none

/-- Whether an argument asks for help. -/
def asksForHelp (text : String) : Bool :=
  text == "--help" || text.toList.take 2 == ['-', 'h']

/-- Takes arguments none of which is an option. -/
def gatherPlain {σ : Type} (form : ArgumentForm σ) (value : σ) (args : List String) :
    Option (Gathered σ) :=
  (args.foldlM (fun value text => form.plain text value) value).map .all

/-- Takes the arguments of a command from left to right. `pending` takes the value of an option
whose name was the last argument. -/
def gather {σ : Type} (form : ArgumentForm σ) :
    Option (String → σ → Option σ) → σ → List String → Option (Gathered σ)
  | none, value, [] => some (.all value)
  | some _, _, [] => none
  | some take, value, text :: rest =>
    if isOption text then none else do gather form none (← take text value) rest
  | none, value, text :: rest =>
    if text = "--" then gatherPlain form value rest
    else if asksForHelp text then some .help
    else if !isOption text then do gather form none (← form.plain text value) rest
    else do
      let (name, given) ← splitOption? text
      match form.flag name, form.valued name, given with
      | some flag, _, none => gather form none (← flag value) rest
      | none, some take, some given => gather form none (← take given value) rest
      | none, some take, none => gather form (some take) value rest
      | _, _, _ => none

/-- Puts a value where there is none yet. -/
def fillOnce {α : Type} (place : Option α) (value : α) : Option (Option α) :=
  if place.isSome then none else some (some value)

/-! ## The arguments of each command -/

structure DiffArguments where
  previous : Option String := none
  current : Option String := none
  threshold : Option Float := none
  pretty : Bool := false

structure TypesArguments where
  graph : Option String := none
  sample : Option String := none
  node : Option String := none

/-- A number of pixels. What is no number is no distance to any place, so no node is beyond it. -/
def pixels? (text : String) : Option Float :=
  if (String.ofList (splitSign text.toList).2).toLower = "nan" then some (0.0 / 0.0)
  else (Double.ofTyped? text).map Double.toFloat

def DiffArguments.form : ArgumentForm DiffArguments where
  plain text args :=
    match args.previous with
    | none => some { args with previous := some text }
    | some _ => (fillOnce args.current text).map fun current => { args with current }
  flag
    | "pretty" => some fun args => if args.pretty then none else some { args with pretty := true }
    | _ => none
  valued
    | "position-threshold" => some fun text args => do
      let threshold ← fillOnce args.threshold (← pixels? text)
      return { args with threshold }
    | _ => none

def TypesArguments.form : ArgumentForm TypesArguments where
  plain text args := (fillOnce args.graph text).map fun graph => { args with graph }
  flag _ := none
  valued
    | "sample" => some fun text args =>
      (fillOnce args.sample text).map fun sample => { args with sample }
    | "node" => some fun text args => (fillOnce args.node text).map fun node => { args with node }
    | _ => none

/-- The comparison that was asked for, if no file is missing. -/
def DiffArguments.command? (args : DiffArguments) : Option Command :=
  match args.previous, args.current with
  | some previous, some current => some (.diff previous current args.threshold args.pretty)
  | _, _ => none

/-- The request for types, if no file is missing. -/
def TypesArguments.command? (args : TypesArguments) : Option Command :=
  args.graph.map fun graph => .types graph args.sample args.node

/-- The command that was asked for, where `ask` makes one of all the arguments. -/
def Gathered.command? {σ : Type} (ask : σ → Option Command) : Gathered σ → Option Command
  | .all value => ask value
  | .help => some .help

/-- The command that a list of arguments asks for, if it is a proper one. -/
def Command.ofArguments? : List String → Option Command
  | "diff" :: args =>
    (gather DiffArguments.form none {} args).bind (Gathered.command? DiffArguments.command?)
  | "types" :: args =>
    (gather TypesArguments.form none {} args).bind (Gathered.command? TypesArguments.command?)
  | "help" :: topics =>
    if topics ∈ [[], ["diff"], ["types"], ["help"]] then some .help else none
  | text :: _ => if asksForHelp text then some .help else none
  | [] => none

def Command.paths : Command → List String
  | .diff previous current _ _ => [previous, current]
  | .types graph sample _ => graph :: sample.toList
  | .help => []

end DecisionGraph
