import DecisionGraph.Proofs.Keyed
import DecisionGraph.Shape.Access
import DecisionGraph.Shape.Printer
import Mathlib.Data.List.Infix

/-!
# Reading what was written

Writing along a path and reading along one fit together as the two halves of a lens do
(`Shape.setAt_lens`):

1. what was written is read;
2. of two values written to one place the second stays;
3. what lies beside the path is read as before.

For the third, paths part where they take different keys (`Path.Fork`). A write makes an object or an array
of whatever stands in its way, and what it throws away there could not be read past the fork anyhow: a key
leads into nothing but objects, and of the characters of a text no key leads on. Unions are the exception,
since a key leads into each of their members. They are lost when they stand in the way.
-/

namespace DecisionGraph

/-- Steps that lead to the same place in every shape. All indexes are alike. -/
inductive Segment.Alike : Segment → Segment → Prop
  | key (name : String) : Alike (.key name) (.key name)
  | index (position position' : Nat) : Alike (.index position) (.index position')

/-- Two paths take the same steps along the first, all indexes counting as one, and take different keys
behind it. -/
inductive Path.Fork : Path → Path → Path → Prop
  | here {name name' : String} (hne : name ≠ name') (rest rest' : Path) :
      Fork [] (.key name :: rest) (.key name' :: rest')
  | step {segment segment' : Segment} {common path path' : Path} (halike : segment.Alike segment')
      (h : Fork common path path') : Fork (segment :: common) (segment :: path) (segment' :: path')

namespace Shape

/-! ## Where nothing is to be read -/

theorem getAt_any (path : Path) : getAt path .any = .any := by
  induction path with
  | nil => rfl
  | cons segment rest ih => exact ih

/-- The characters of a text are texts, and no key leads into them. -/
theorem getAt_text_of_fork {common path path' : Path} (h : Path.Fork common path path') :
    getAt path' .text = .any := by
  induction h with
  | here _ _ rest' => exact getAt_any rest'
  | @step segment segment' _ _ path' _ _ ih =>
      cases segment' with
      | key name => exact getAt_any path'
      | index _ => exact ih

/-- An empty object says as little as `any` to who writes into it. -/
theorem setAt_empty (path : Path) (value : Shape) : setAt path .empty value = setAt path .any value := by
  cases path with
  | nil => rfl
  | cons segment rest => cases segment <;> rfl

/-! ## One step -/

/-- A key leads to a field, and into nothing but objects, unions apart. -/
theorem step_key {shape : Shape} (h : shape.isUnion = false) (name : String) :
    shape.step (.key name) = (Keyed.get? name shape.fieldsOrNone).getD .any := by
  cases shape with
  | object fields => rfl
  | any | array => rfl
  | scalar kind => cases kind <;> rfl
  | union members => cases h

/-- Any index leads to the item of an array, or to a character of a text, unions apart. -/
theorem step_index {shape : Shape} (h : shape.isUnion = false) :
    (∀ position, shape.step (.index position) = shape.itemOrAny)
      ∨ (∀ position, shape.step (.index position) = .text) ∧ shape.itemOrAny = .any := by
  cases shape with
  | array item => exact .inl fun _ => rfl
  | any | object => exact .inl fun _ => rfl
  | scalar kind =>
      cases kind with
      | text => exact .inr ⟨fun _ => rfl, rfl⟩
      | _ => exact .inl fun _ => rfl
  | union members => cases h

mutual

/-- Steps that are alike lead to the same place, also through unions. -/
theorem step_alike {segment segment' : Segment} (h : segment.Alike segment') :
    ∀ shape : Shape, shape.step segment = shape.step segment'
  | .any => by cases h <;> rfl
  | .scalar kind => by cases h <;> cases kind <;> rfl
  | .array item => by cases h <;> rfl
  | .object fields => by cases h <;> rfl
  | .union members => congrArg oneOf (stepEach_alike h members)

theorem stepEach_alike {segment segment' : Segment} (h : segment.Alike segment') :
    ∀ members : List Shape, stepEach segment members = stepEach segment' members
  | [] => rfl
  | member :: rest => congrArg₂ List.cons (step_alike h member) (stepEach_alike h rest)

end

/-- Writing under a key writes what is found one step inside. -/
theorem step_setAt_key (name : String) (rest : Path) (shape value : Shape) :
    step (.key name) (setAt (.key name :: rest) shape value)
      = setAt rest ((Keyed.get? name shape.fieldsOrNone).getD .any) value := by
  rw [setAt, step, Keyed.get?_insert_self, Option.getD_some]

/-- Writing under a key leaves what is found under the others, unions apart. -/
theorem step_setAt_of_ne {name name' : String} (hne : name ≠ name') (rest : Path) {shape : Shape}
    (h : shape.isUnion = false) (value : Shape) :
    step (.key name') (setAt (.key name :: rest) shape value) = shape.step (.key name') := by
  rw [step_key h, setAt, step, Keyed.get?_insert_of_ne hne]

/-! ## A whole path -/

/-- **What was written is read.** -/
theorem getAt_setAt (path : Path) (shape value : Shape) : getAt path (setAt path shape value) = value := by
  induction path generalizing shape with
  | nil => rfl
  | cons segment rest ih =>
      cases segment with
      | key name =>
          rw [getAt, List.foldl_cons, step_setAt_key]
          exact ih _
      | index _ => exact ih shape.itemOrAny

/-- **Of two values written to one place the second stays.** -/
theorem setAt_setAt (path : Path) (shape value value' : Shape) :
    setAt path (setAt path shape value) value' = setAt path shape value' := by
  induction path generalizing shape with
  | nil => rfl
  | cons segment rest ih =>
      cases segment with
      | key name =>
          have hfields : (setAt (.key name :: rest) shape value).fieldsOrNone
              = Keyed.insert name (setAt rest ((Keyed.get? name shape.fieldsOrNone).getD .any) value)
                shape.fieldsOrNone := rfl
          rw [setAt, hfields, Keyed.get?_insert_self, Option.getD_some, ih, Keyed.insert_insert, setAt]
      | index _ => exact congrArg Shape.array (ih shape.itemOrAny)

/-- **What lies beside the path is read as before.** -/
theorem getAt_setAt_of_fork {common path path' : Path} (h : Path.Fork common path path')
    {shape : Shape} (hunion : ∀ part, part <+: common → (shape.getAt part).isUnion = false)
    (value : Shape) : getAt path' (setAt path shape value) = getAt path' shape := by
  induction h generalizing shape with
  | here hne rest rest' =>
      have hshape : shape.isUnion = false := hunion [] List.nil_prefix
      rw [getAt, List.foldl_cons, step_setAt_of_ne hne rest hshape]
      rfl
  | @step segment segment' common path path' halike h ih =>
      have hshape : shape.isUnion = false := hunion [] List.nil_prefix
      have hinner (part : Path) (hpart : part <+: common) :
          ((shape.step segment).getAt part).isUnion = false :=
        hunion (segment :: part) (List.cons_prefix_cons.mpr ⟨rfl, hpart⟩)
      cases halike with
      | key name =>
          rw [getAt, List.foldl_cons, step_setAt_key, ← step_key hshape]
          exact ih hinner
      | index position position' =>
          rcases step_index hshape with hitem | ⟨htext, hitem⟩
          · rw [hitem] at hinner
            exact (ih hinner).trans (congrArg (getAt path') (hitem position').symm)
          · -- the array that is made in place of a text says as little past the fork as the text did
            have hany (part : Path) (_ : part <+: common) : (getAt part .any).isUnion = false := by
              rw [getAt_any]
              rfl
            calc getAt path' (setAt path shape.itemOrAny value)
                = getAt path' .any := by rw [hitem, ih hany]
              _ = getAt path' .text := by rw [getAt_any, getAt_text_of_fork h]
              _ = getAt path' (shape.step (.index position')) := by rw [htext]

/--
**Writing along a path and reading along one are a lens.**

What was written is read, and of two values written to one place the second stays, whatever shape it is and
whatever stands in the way. What is read along a path that forks off is what was read before, if there is no
union on the common part of both paths, its end included.
-/
theorem setAt_lens (shape value value' : Shape) (path : Path) :
    getAt path (setAt path shape value) = value
      ∧ setAt path (setAt path shape value) value' = setAt path shape value'
      ∧ ∀ {common path' : Path}, Path.Fork common path path' →
        (∀ part, part <+: common → (shape.getAt part).isUnion = false) →
        getAt path' (setAt path shape value) = getAt path' shape :=
  ⟨getAt_setAt path shape value, setAt_setAt path shape value value',
    fun hfork hunion => getAt_setAt_of_fork hfork hunion value⟩

/-- The price of one item is written, and the name of another is read. -/
theorem setAt_lens_items :
    let shape : Shape := .object [("items", .array (.object [("name", .text), ("price", .number)]))]
    let path : Path := [.key "items", .index 0, .key "price"]
    let path' : Path := [.key "items", .index 7, .key "name"]
    let common : Path := [.key "items", .index 0]
    getAt path (setAt path shape .date) = .date
      ∧ setAt path (setAt path shape .date) .null = setAt path shape .null
      ∧ Path.Fork common path path'
      ∧ (∀ part, part <+: common → (shape.getAt part).isUnion = false)
      ∧ getAt path' (setAt path shape .date) = .text := by
  intro shape path path' common
  have hfork : Path.Fork common path path' :=
    .step (.key "items") (.step (.index 0 7) (.here (by decide) [] []))
  have hunion : ∀ part, part <+: common → (shape.getAt part).isUnion = false := by
    have hparts : ∀ part ∈ common.inits, (shape.getAt part).isUnion = false := by decide
    exact fun part hpart => hparts part ((List.mem_inits part common).mpr hpart)
  obtain ⟨hread, hstays, hbeside⟩ := setAt_lens shape .date .null path
  exact ⟨hread, hstays, hfork, hunion, hbeside hfork hunion⟩

/-! ## Written paths -/

section Written

variable {path : String}

theorem set_of_parse {steps : Path} (h : Path.parse path = .ok steps) (shape value : Shape) :
    shape.set path value = setAt steps shape value := by
  rw [set, h]

/-- Nothing is written along what is no path. -/
theorem set_of_not_parse (h : ∀ steps, Path.parse path ≠ .ok steps) (shape value : Shape) :
    shape.set path value = shape := by
  unfold set
  split
  · rename_i steps hparse
    exact absurd hparse (h steps)
  · rfl

theorem get_of_parse {steps : Path} (h : Path.parse path = .ok steps) (shape : Shape) :
    shape.get path = shape.getAt steps := by
  rw [get, h]

/-- Nothing is known of what no path leads to. -/
theorem get_of_not_parse (h : ∀ steps, Path.parse path ≠ .ok steps) (shape : Shape) :
    shape.get path = .any := by
  unfold get
  split
  · rename_i steps hparse
    exact absurd hparse (h steps)
  · rfl

end Written

end Shape

end DecisionGraph
