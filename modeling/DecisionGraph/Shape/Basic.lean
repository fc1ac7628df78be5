import DecisionGraph.Keyed

/-!
# Shapes

A shape describes the values that can stand at a point of a decision graph: anything, a scalar of
some kind, an array of items of one shape, an object with known fields, or one of several shapes.

Shapes are ordered by their structure (`Shape.compare`), with `any` first and unions last. The
members of a union stand in this order, each once, so two unions with the same members are the same
shape; `Shape.compare_eq_iff` says that the order tells different shapes apart.
-/

namespace DecisionGraph

inductive Scalar
  | null
  | boolean
  | number
  | text
  | date
deriving DecidableEq, Inhabited

/-- The place of a kind of scalar in the order of shapes. -/
def Scalar.rank : Scalar → Nat
  | .null => 0
  | .boolean => 1
  | .number => 2
  | .text => 3
  | .date => 4

/-- A set of values, described by their structure. -/
inductive Shape
  | any
  | scalar (kind : Scalar)
  | array (item : Shape)
  | object (fields : List (String × Shape))
  | union (members : List Shape)
deriving Inhabited

namespace Shape

abbrev null : Shape := .scalar .null

abbrev boolean : Shape := .scalar .boolean

abbrev number : Shape := .scalar .number

abbrev text : Shape := .scalar .text

abbrev date : Shape := .scalar .date

abbrev empty : Shape := .object []

/-- The place of a shape's outermost form in the order of shapes. -/
def rank : Shape → Nat
  | .any => 0
  | .scalar _ => 1
  | .array _ => 2
  | .object _ => 3
  | .union _ => 4

mutual

/-- The order of shapes: by form, then by parts. -/
def compare : Shape → Shape → Ordering
  | .scalar a, .scalar b => Ord.compare a.rank b.rank
  | .array a, .array b => compare a b
  | .object a, .object b => compareFields a b
  | .union a, .union b => compareMembers a b
  | a, b => Ord.compare a.rank b.rank

/-- Fields are compared one after the other, the name before the shape; the shorter list comes
first. -/
def compareFields : List (String × Shape) → List (String × Shape) → Ordering
  | [], [] => .eq
  | [], _ => .lt
  | _, [] => .gt
  | (name, a) :: as, (name', b) :: bs =>
    ((Ord.compare name name').then (compare a b)).then (compareFields as bs)

/-- Members are compared one after the other; the shorter list comes first. -/
def compareMembers : List Shape → List Shape → Ordering
  | [], [] => .eq
  | [], _ => .lt
  | _, [] => .gt
  | a :: as, b :: bs => (compare a b).then (compareMembers as bs)

end

/-! ## The order tells shapes apart -/

theorem then_eq_eq {a b : Ordering} : a.then b = .eq ↔ a = .eq ∧ b = .eq := by
  cases a <;> simp [Ordering.then]

theorem compare_nat_eq {a b : Nat} : Ord.compare a b = .eq ↔ a = b := Nat.compare_eq_eq

theorem compare_string_eq {a b : String} : Ord.compare a b = .eq ↔ a = b := by
  simp

theorem Scalar.rank_inj {a b : Scalar} (h : a.rank = b.rank) : a = b := by
  cases a <;> cases b <;> first | rfl | cases h

mutual

theorem compare_self : ∀ a : Shape, compare a a = .eq
  | .any => by simp [compare]
  | .scalar _ => by simp [compare]
  | .array item => by simp [compare, compare_self item]
  | .object fields => by simp [compare, compareFields_self fields]
  | .union members => by simp [compare, compareMembers_self members]

theorem compareFields_self : ∀ fields : List (String × Shape), compareFields fields fields = .eq
  | [] => rfl
  | (name, shape) :: rest => by
    simp [compareFields, compare_self shape, compareFields_self rest, Ordering.then]

theorem compareMembers_self : ∀ members : List Shape, compareMembers members members = .eq
  | [] => rfl
  | shape :: rest => by
    simp [compareMembers, compare_self shape, compareMembers_self rest, Ordering.then]

end

mutual

theorem eq_of_compare : ∀ a b : Shape, compare a b = .eq → a = b
  | .any, .any, _ => rfl
  | .scalar a, .scalar b, h => by
    simp only [compare, compare_nat_eq] at h
    rw [Scalar.rank_inj h]
  | .array a, .array b, h => by
    simp only [compare] at h
    rw [eq_of_compare a b h]
  | .object a, .object b, h => by
    simp only [compare] at h
    rw [eq_of_compareFields a b h]
  | .union a, .union b, h => by
    simp only [compare] at h
    rw [eq_of_compareMembers a b h]
  | .any, .scalar _, h | .any, .array _, h | .any, .object _, h | .any, .union _, h
  | .scalar _, .any, h | .scalar _, .array _, h | .scalar _, .object _, h
  | .scalar _, .union _, h | .array _, .any, h | .array _, .scalar _, h
  | .array _, .object _, h | .array _, .union _, h | .object _, .any, h
  | .object _, .scalar _, h | .object _, .array _, h | .object _, .union _, h
  | .union _, .any, h | .union _, .scalar _, h | .union _, .array _, h
  | .union _, .object _, h => by
    simp [compare, rank] at h

theorem eq_of_compareFields : ∀ a b : List (String × Shape), compareFields a b = .eq → a = b
  | [], [], _ => rfl
  | [], _ :: _, h => by simp [compareFields] at h
  | _ :: _, [], h => by simp [compareFields] at h
  | (name, a) :: as, (name', b) :: bs, h => by
    simp only [compareFields, then_eq_eq] at h
    rw [compare_string_eq.1 h.1.1, eq_of_compare a b h.1.2, eq_of_compareFields as bs h.2]

theorem eq_of_compareMembers : ∀ a b : List Shape, compareMembers a b = .eq → a = b
  | [], [], _ => rfl
  | [], _ :: _, h => by simp [compareMembers] at h
  | _ :: _, [], h => by simp [compareMembers] at h
  | a :: as, b :: bs, h => by
    simp only [compareMembers, then_eq_eq] at h
    rw [eq_of_compare a b h.1, eq_of_compareMembers as bs h.2]

end

theorem compare_eq_iff {a b : Shape} : compare a b = .eq ↔ a = b :=
  ⟨eq_of_compare a b, fun h => h ▸ compare_self a⟩

instance : DecidableEq Shape := fun a b =>
  if h : compare a b = .eq then isTrue (compare_eq_iff.1 h)
  else isFalse fun e => h (compare_eq_iff.2 e)

/-! ## Sets of shapes -/

/-- Adds a shape to a list in ascending order, unless it is there already. -/
def insertMember (shape : Shape) : List Shape → List Shape
  | [] => [shape]
  | member :: rest =>
    match compare shape member with
    | .lt => shape :: member :: rest
    | .eq => member :: rest
    | .gt => member :: insertMember shape rest

/-- The distinct shapes of a list in ascending order. -/
def setOf (shapes : List Shape) : List Shape :=
  shapes.foldl (fun set shape => insertMember shape set) []

/-- The shapes that a shape contributes to a union: the members of a union, and any other shape
itself. -/
def alternatives : Shape → List Shape
  | .union members => members
  | shape => [shape]

/-- The shape of a value that has one of the given shapes. Unions among them are opened, repetitions
dropped, `any` stands for the whole, and a single shape that is left stands for itself. Nothing is
known about one of no shapes. -/
def oneOf (shapes : List Shape) : Shape :=
  if .any ∈ shapes then .any
  else match setOf (shapes.flatMap alternatives) with
    | [] => .any
    | [only] => only
    | members => .union members

def isAny : Shape → Bool
  | .any => true
  | _ => false

def isObject : Shape → Bool
  | .object _ => true
  | _ => false

mutual

/-- Every value of the shape is of one of these kinds of scalars, as far as is known. -/
def consistsOf (kinds : List Scalar) : Shape → Bool
  | .any => true
  | .scalar kind => kinds.contains kind
  | .union members => allConsistOf kinds members
  | _ => false

def allConsistOf (kinds : List Scalar) : List Shape → Bool
  | [] => true
  | member :: rest => consistsOf kinds member && allConsistOf kinds rest

end

/-- Every value is a number, as far as is known. -/
def isNumeric (shape : Shape) : Bool := shape.consistsOf [.number]

/-- Every value can take part in arithmetic, as far as is known: numbers, dates and `null`. -/
def isArithmetic (shape : Shape) : Bool := shape.consistsOf [.number, .date, .null]

mutual

/-- Every value is certainly a text. -/
def isText : Shape → Bool
  | .scalar kind => kind == .text
  | .union members => allText members
  | _ => false

def allText : List Shape → Bool
  | [] => true
  | member :: rest => isText member && allText rest

end

end Shape

end DecisionGraph
