/-!
# Aligning two sequences

The items of a previous and a current sequence are paired by what they are known by. An item that
has an id is paired with the first item of that id that is still there; one that has none, with
the item of the same fingerprint whose place is nearest to its own. What is left over on the one
side has been removed, on the other side added.

* **`align`** gives the current items in order, with each removed item right before the first paired
  one that came after it in the previous sequence.
* A pair has **moved** if its rank among the pairs is not the same on both sides; what is added or
  removed elsewhere moves nothing.
-/

namespace DecisionGraph

/-- What an item is known by in both sequences. -/
inductive Label
  | named (id : String)
  /-- A fingerprint of what it holds, for lack of an id. -/
  | print (fingerprint : String)
  /-- Nothing: such an item is never paired. -/
  | unmarked
deriving DecidableEq

/-- The label of an item with an id that counts unless it is empty, and else with a fingerprint. -/
def Label.of (id fingerprint : Option String) : Label :=
  match id.filter (!·.isEmpty), fingerprint with
  | some id, _ => .named id
  | none, some fingerprint => .print fingerprint
  | none, none => .unmarked

/-- An item and its place in a sequence. -/
structure Placed (α : Type) where
  index : Nat
  item : α

def placed {α : Type} (items : List α) : List (Placed α) :=
  items.zipIdx.map fun (item, index) => ⟨index, item⟩

/-- An entry of an alignment. -/
inductive Slot (α : Type)
  /-- An item of both sequences. -/
  | paired (previous current : Placed α) (moved : Bool)
  /-- An item of the current sequence alone. -/
  | added (current : Placed α)
  /-- An item of the previous sequence alone. -/
  | removed (previous : Placed α)

namespace Slot

variable {α : Type}

/-- The entry of a current item, with its partner and its movement if it has one. -/
def ofPair : Option (Placed α) × Placed α → Bool → Slot α
  | (none, current), _ => .added current
  | (some previous, current), moved => .paired previous current moved

def previous? : Slot α → Option (Placed α)
  | .paired previous _ _ => some previous
  | .added _ => none
  | .removed previous => some previous

def current? : Slot α → Option (Placed α)
  | .paired _ current _ => some current
  | .added current => some current
  | .removed _ => none

/-- Whether the item has moved among the paired ones. -/
def hasMoved : Slot α → Bool
  | .paired _ _ moved => moved
  | _ => false

/-- Whether the item is in the current sequence alone. -/
def isAdded (slot : Slot α) : Bool := slot.previous?.isNone

/-- Whether the item is in the previous sequence alone. -/
def isRemoved (slot : Slot α) : Bool := slot.current?.isNone

end Slot

namespace Align

variable {α : Type}

def distance (i j : Nat) : Nat := (i - j) + (j - i)

/-- The item whose place is nearest to `place`, the first one if several are. -/
def nearest? (place : Nat) : List (Placed α) → Option (Placed α)
  | [] => none
  | first :: rest =>
    match nearest? place rest with
    | none => some first
    | some other =>
      if distance other.index place < distance first.index place then some other else some first

/-- The item of the pool that an item with a label at a place is paired with. -/
def partner? (label : α → Label) (pool : List (Placed α)) (wanted : Label) (place : Nat) :
    Option (Placed α) :=
  let candidates := pool.filter fun candidate => label candidate.item = wanted
  match wanted with
  | .named _ => candidates.head?
  | .print _ => nearest? place candidates
  | .unmarked => none

/-- Pairs current items one after the other with items of the pool, and also gives back what is left
of the pool. -/
def pairUp (label : α → Label) :
    List (Placed α) → List (Placed α) → List (Option (Placed α) × Placed α) × List (Placed α)
  | pool, [] => ([], pool)
  | pool, current :: rest =>
    match partner? label pool (label current.item) current.index with
    | none =>
      let (pairs, left) := pairUp label pool rest
      ((none, current) :: pairs, left)
    | some previous =>
      -- places tell items apart that have one label
      let (pairs, left) := pairUp label (pool.filter fun other => other.index ≠ previous.index) rest
      ((some previous, current) :: pairs, left)

/-- Puts a place into a list of places in ascending order. -/
def insertPlace (place : Nat) : List Nat → List Nat
  | [] => [place]
  | first :: rest => if place ≤ first then place :: first :: rest else first :: insertPlace place rest

/-- The places in ascending order. -/
def ascend (places : List Nat) : List Nat := places.foldr insertPlace []

/-- Writes numbers into a table at places, one after the other, beginning with `rank`. -/
def writeRanks (table : List Nat) (rank : Nat) : List Nat → List Nat
  | [] => table
  | place :: rest => writeRanks (table.set place rank) (rank + 1) rest

/-- A table that has at each of the places its rank among them, and is as long as the sequence that
they are places of. -/
def rankTable (length : Nat) (places : List Nat) : List Nat :=
  writeRanks (List.replicate length 0) 0 (ascend places)

/-- Goes through the current items, each with the place of its partner, and tells which of the paired
ones have another rank than their partners. `rank` paired ones have come before. -/
def compareRanks (table : List Nat) (rank : Nat) : List (Option Nat) → List Bool
  | [] => []
  | none :: rest => false :: compareRanks table rank rest
  | some place :: rest => (table[place]? ≠ some rank) :: compareRanks table (rank + 1) rest

/-- Which of the current items have moved, given the place of each one's partner in a previous
sequence of that length. -/
def movements (length : Nat) (partners : List (Option Nat)) : List Bool :=
  -- movement is judged among paired items only: what was added or removed moves nothing
  compareRanks (rankTable length (partners.filterMap id)) 0 partners

/-- The entries of the current items, each pair with its movement. -/
def slots (length : Nat) (pairs : List (Option (Placed α) × Placed α)) : List (Slot α) :=
  pairs.zipWith .ofPair (movements length (pairs.map fun (partner, _) => partner.map Placed.index))

/-- Puts each removed item before the first paired one that came after it. -/
def place : List (Placed α) → List (Slot α) → List (Slot α)
  | removed, [] => removed.map .removed
  | removed, .paired previous current moved :: rest =>
    (removed.takeWhile fun item => item.index < previous.index).map .removed ++
      .paired previous current moved ::
        place (removed.dropWhile fun item => item.index < previous.index) rest
  | removed, slot :: rest => slot :: place removed rest

end Align

/-- Aligns two sequences by the labels of their items. -/
def align {α : Type} (label : α → Label) (previous current : List α) : List (Slot α) :=
  let (pairs, left) := Align.pairUp label (placed previous) (placed current)
  Align.place left (Align.slots previous.length pairs)

/-- Whether nothing has been added, removed or moved. -/
def isStable {α : Type} (slots : List (Slot α)) : Bool :=
  slots.all fun slot => !slot.hasMoved && !slot.isAdded && !slot.isRemoved

end DecisionGraph
