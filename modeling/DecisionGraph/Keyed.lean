/-!
# Values under names, in the order of the names

JSON objects, object shapes, field differences and propagation results are all finite maps from
names to values whose order of printing is the order of their names. `Keyed` is that map: a list of
pairs in strictly ascending order of the names. Strings are ordered by their code points.

The view is `Keyed.get?`. Every operation below keeps the order (`Keyed.Ordered`).
-/

namespace DecisionGraph

universe u v

/-- Values under names. The operations of this module keep the names strictly ascending. -/
abbrev Keyed (α : Type u) : Type u := List (String × α)

namespace Keyed

variable {α : Type u} {β : Type v}

/-- The names are strictly ascending, so each stands once. -/
def Ordered (entries : Keyed α) : Prop := entries.Pairwise fun a b => a.1 < b.1

def get? (name : String) : Keyed α → Option α
  | [] => none
  | (key, value) :: rest => if key = name then some value else get? name rest

def contains (name : String) (entries : Keyed α) : Bool := (get? name entries).isSome

/-- Puts `value` under `name`, in place of what stood there. -/
def insert (name : String) (value : α) : Keyed α → Keyed α
  | [] => [(name, value)]
  | (key, old) :: rest =>
    if name < key then (name, value) :: (key, old) :: rest
    else if name = key then (name, value) :: rest
    else (key, old) :: insert name value rest

def erase (name : String) (entries : Keyed α) : Keyed α :=
  entries.filter fun entry => entry.1 ≠ name

/-- The map of a list of pairs. Of several pairs with one name the last counts. -/
def ofList (pairs : List (String × α)) : Keyed α :=
  pairs.foldl (fun entries pair => insert pair.1 pair.2 entries) []

def names (entries : Keyed α) : List String := entries.map (·.1)

def values (entries : Keyed α) : List α := entries.map (·.2)

def mapValues (f : α → β) (entries : Keyed α) : Keyed β :=
  entries.map fun entry => (entry.1, f entry.2)

/-- Both maps together. Where both have a name, the second counts. -/
def union (first second : Keyed α) : Keyed α :=
  second.foldl (fun entries entry => insert entry.1 entry.2 entries) first

end Keyed

/-- The distinct strings of a list, in ascending order. -/
def sortedDistinct (texts : List String) : List String :=
  (Keyed.ofList (texts.map fun text => (text, ()))).names

end DecisionGraph
