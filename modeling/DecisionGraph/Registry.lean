import DecisionGraph.Behavior.Builtin

/-!
# Registries

A registry knows which behavior a kind tag stands for. The known kinds are registered under
all of their names; further tags can be made to stand for a known kind, and further behaviors
can be registered, in place of what was registered before.
-/

namespace DecisionGraph

structure Registry where
  behaviors : Keyed Behavior

namespace Registry

/-- The behavior that a kind tag stands for. -/
def get? (registry : Registry) (kind : String) : Option Behavior :=
  Keyed.get? kind registry.behaviors

def contains (registry : Registry) (kind : String) : Bool := (registry.get? kind).isSome

/-- The behavior that a kind tag stands for, or the one for unknown kinds. -/
def behaviorOf (registry : Registry) (kind : String) : Behavior :=
  (registry.get? kind).getD .unregistered

/-- Whether two kind tags are the same or stand for the same kind. -/
def equates (registry : Registry) (previous current : String) : Bool :=
  previous == current ||
    match registry.get? previous, registry.get? current with
    | some a, some b => a.kind == b.kind
    | _, _ => false

def register (registry : Registry) (kind : String) (behavior : Behavior) : Registry :=
  ⟨Keyed.insert kind behavior registry.behaviors⟩

/-- The known kinds under all of their names. -/
def builtin : Registry :=
  ⟨Keyed.ofList (Kind.all.flatMap fun kind =>
    kind.names.map fun name => (name, Behavior.ofKind kind))⟩

/-- Makes a kind tag stand for a known kind, given by any of its names. An unknown name changes
nothing. -/
def addAlias (registry : Registry) (tag name : String) : Registry :=
  match Kind.ofName? name with
  | some kind => registry.register tag (.ofKind kind)
  | none => registry

def add (registry : Registry) (behavior : Behavior) : Registry :=
  registry.register behavior.kind behavior

def defaultContent (registry : Registry) (kind : String) : Json :=
  (registry.behaviorOf kind).defaultContent

/-- The registered kind tags, for a person to read. -/
def print (registry : Registry) : String :=
  "NodeRegistry \x7b kinds: [" ++
    ", ".intercalate ((Keyed.names registry.behaviors).map Text.quote) ++ "] \x7d"

end Registry

end DecisionGraph
