import DecisionGraph.Proofs.Keyed
import DecisionGraph.Proofs.Shape.Order
import DecisionGraph.Shape.Access
import DecisionGraph.Shape.Depth
import DecisionGraph.Shape.Merge

/-!
# The normal form of shapes

A shape is normal if every union in it tells at least two shapes apart that are neither `any` nor unions
themselves (`Shape.Normal`). `Shape.oneOf` makes normal shapes of normal shapes (`Normal.oneOf`), and every
other operation that rebuilds a union does it by `oneOf`; what is left to show for each is what shapes it
hands over.

A proof that runs through a normal shape is an induction on `Normal`: the members of unions and the fields
of objects come with what is to be shown of them.
-/

namespace DecisionGraph.Shape

/-- The shape can be a member of a union in normal form. -/
def IsAlternative : Shape → Prop
  | .any | .union _ => False
  | _ => True

/-- Every union in the shape, at any depth, has at least two members, in strictly ascending order, none of
which is `any` or a union. -/
inductive Normal : Shape → Prop
  | any : Normal .any
  | scalar (kind : Scalar) : Normal (.scalar kind)
  | array {item : Shape} (hitem : Normal item) : Normal (.array item)
  | object {fields : List (String × Shape)} (hfields : ∀ field ∈ fields, Normal field.2) :
      Normal (.object fields)
  | union {members : List Shape} (hcount : 2 ≤ members.length) (hascending : Ascending members)
      (halternatives : ∀ member ∈ members, member.IsAlternative)
      (hmembers : ∀ member ∈ members, Normal member) : Normal (.union members)

/-- Two scalars in one union. -/
theorem Normal.scalars {kind kind' : Scalar} (h : kind.rank < kind'.rank) :
    Normal (.union [.scalar kind, .scalar kind']) := by
  have hascending : Ascending [.scalar kind, .scalar kind'] :=
    List.pairwise_pair.mpr (Nat.compare_eq_lt.mpr h)
  exact .union (Nat.le_refl 2) hascending
    (List.forall_mem_cons.mpr ⟨trivial, List.forall_mem_singleton.mpr trivial⟩)
    (List.forall_mem_cons.mpr ⟨.scalar kind, List.forall_mem_singleton.mpr (.scalar kind')⟩)

/-! ## One of several shapes -/

theorem Normal.alternatives {shape : Shape} (h : Normal shape) (hany : shape ≠ .any) :
    ∀ member ∈ shape.alternatives, member.IsAlternative ∧ Normal member := by
  cases h with
  | any => exact absurd rfl hany
  | union _ _ halternatives hmembers =>
      exact fun member hmember => ⟨halternatives member hmember, hmembers member hmember⟩
  | scalar kind => exact List.forall_mem_singleton.mpr ⟨trivial, .scalar kind⟩
  | array hitem => exact List.forall_mem_singleton.mpr ⟨trivial, .array hitem⟩
  | object hfields => exact List.forall_mem_singleton.mpr ⟨trivial, .object hfields⟩

/-- What can come out when one of several shapes is taken: `any`, one of the alternatives, or a union of
alternatives that is in order. -/
theorem oneOf_cases (shapes : List Shape) :
    oneOf shapes = .any ∨ .any ∉ shapes ∧
      (oneOf shapes ∈ shapes.flatMap alternatives ∨
        ∃ members, oneOf shapes = .union members ∧ 2 ≤ members.length ∧ Ascending members ∧
          ∀ member ∈ members, member ∈ shapes.flatMap alternatives) := by
  unfold oneOf
  split
  · exact .inl rfl
  · rename_i hany
    have hascending := ascending_setOf (shapes.flatMap alternatives)
    have hmem : ∀ member ∈ setOf (shapes.flatMap alternatives), member ∈ shapes.flatMap alternatives :=
      fun _ => mem_setOf.mp
    split
    · exact .inl rfl
    · rename_i only heq
      rw [heq] at hmem
      exact .inr ⟨hany, .inl (hmem only (List.mem_singleton_self only))⟩
    · rename_i hnil hone
      refine .inr ⟨hany, .inr ⟨_, rfl, ?_, hascending, hmem⟩⟩
      generalize setOf (shapes.flatMap alternatives) = members at *
      match members with
      | [] => exact absurd rfl hnil
      | [only] => exact absurd rfl (hone only)
      | _ :: _ :: rest => exact Nat.le_add_left 2 rest.length

/-- **One of several normal shapes is normal.** -/
theorem Normal.oneOf {shapes : List Shape} (h : ∀ shape ∈ shapes, Normal shape) : Normal (oneOf shapes) := by
  have hparts (hany : .any ∉ shapes) :
      ∀ member ∈ shapes.flatMap Shape.alternatives, member.IsAlternative ∧ Normal member := by
    intro member hmember
    obtain ⟨shape, hshape, hin⟩ := List.mem_flatMap.mp hmember
    exact (h shape hshape).alternatives (fun heq => hany (heq ▸ hshape)) member hin
  rcases oneOf_cases shapes with heq | ⟨hany, hmem | ⟨members, heq, hcount, hascending, hmem⟩⟩
  · exact heq ▸ .any
  · exact (hparts hany _ hmem).2
  · rw [heq]
    exact .union hcount hascending (fun member hmember => (hparts hany member (hmem member hmember)).1)
      fun member hmember => (hparts hany member (hmem member hmember)).2

/-! ## Along a path -/

/-- What stands under a name, or `any`. -/
theorem Normal.get?_getD {fields : Keyed Shape} (h : ∀ field ∈ fields, Normal field.2) (name : String) :
    Normal ((Keyed.get? name fields).getD .any) := by
  cases heq : Keyed.get? name fields with
  | none => exact .any
  | some shape => exact h _ (Keyed.mem_of_get? heq)

theorem stepEach_eq_map (segment : Segment) (members : List Shape) :
    stepEach segment members = members.map (step segment) := by
  induction members with
  | nil => rfl
  | cons member rest ih => rw [stepEach, ih, List.map_cons]

theorem elements_eq_map (members : List Shape) : elements members = members.map element := by
  induction members with
  | nil => rfl
  | cons member rest ih => rw [elements, ih, List.map_cons]

/-- **The shape one step inside is normal.** -/
theorem Normal.step {shape : Shape} (h : Normal shape) (segment : Segment) : Normal (step segment shape) := by
  induction h with
  | any => cases segment <;> exact .any
  | scalar kind => cases kind <;> cases segment <;> first | exact .any | exact .scalar _
  | array hitem =>
      cases segment with
      | key name => exact .any
      | index _ => exact hitem
  | object hfields =>
      cases segment with
      | key name => exact .get?_getD hfields name
      | index _ => exact .any
  | union _ _ _ _ ih =>
      rw [Shape.step, stepEach_eq_map]
      exact .oneOf (List.forall_mem_map.mpr ih)

theorem Normal.getAt {shape : Shape} (h : Normal shape) (path : Path) : Normal (getAt path shape) := by
  induction path generalizing shape with
  | nil => exact h
  | cons segment rest ih => exact ih (h.step segment)

theorem Normal.element {shape : Shape} (h : Normal shape) : Normal (element shape) := by
  induction h with
  | any | scalar | object => exact .any
  | array hitem => exact hitem
  | union _ _ _ _ ih =>
      rw [Shape.element, elements_eq_map]
      exact .oneOf (List.forall_mem_map.mpr ih)

theorem Normal.insert {fields : Keyed Shape} (h : ∀ field ∈ fields, Normal field.2) {shape : Shape}
    (hshape : Normal shape) (name : String) : ∀ field ∈ Keyed.insert name shape fields, Normal field.2 := by
  intro field hfield
  rcases Keyed.mem_insert hfield with rfl | hold
  · exact hshape
  · exact h field hold

theorem Normal.fieldsOrNone {shape : Shape} (h : Normal shape) :
    ∀ field ∈ shape.fieldsOrNone, Normal field.2 := by
  cases h with
  | object hfields => exact hfields
  | _ => exact fun _ hfield => absurd hfield List.not_mem_nil

theorem Normal.itemOrAny {shape : Shape} (h : Normal shape) : Normal shape.itemOrAny := by
  cases h with
  | array hitem => exact hitem
  | _ => exact .any

/-- **Writing a normal shape into a normal shape gives a normal one.** -/
theorem Normal.setAt {shape value : Shape} (h : Normal shape) (hvalue : Normal value) (path : Path) :
    Normal (setAt path shape value) := by
  induction path generalizing shape with
  | nil => exact hvalue
  | cons segment rest ih =>
      cases segment with
      | key name => exact .object (.insert h.fieldsOrNone (ih (.get?_getD h.fieldsOrNone name)) name)
      | index _ => exact .array (ih h.itemOrAny)

/-! ## Merging -/

/-- Two shapes are only taken apart if both are objects. -/
theorem merge_ind {p : Shape → Prop} {first second : Shape} (hfirst : p first) (hsecond : p second)
    (heither : p (either first second))
    (hobjects : ∀ fields fields', first = .object fields → second = .object fields' →
      p (.object (mergeFields fields fields'))) : p (merge first second) := by
  unfold merge
  split
  · exact hobjects _ _ rfl rfl
  · exact hsecond
  · exact hfirst
  · exact heither

/-- A property of shapes holds of all fields of a merged object, if it holds of the fields of both and is
kept where both have one. -/
theorem mergeFields_forall {p : Shape → Prop} {fields : List (String × Shape)} {others : Keyed Shape}
    (hmerge : ∀ field ∈ fields, ∀ other, p other → p (merge field.2 other))
    (heither : ∀ field ∈ fields, ∀ other, p other → p (either field.2 other))
    (hfields : ∀ field ∈ fields, p field.2) (hothers : ∀ other ∈ others, p other.2) :
    ∀ field ∈ mergeFields fields others, p field.2 := by
  induction fields with
  | nil => exact hothers
  | cons first rest ih =>
      obtain ⟨name, shape⟩ := first
      obtain ⟨hmerge, hmerges⟩ := List.forall_mem_cons.mp hmerge
      obtain ⟨heither, heithers⟩ := List.forall_mem_cons.mp heither
      obtain ⟨hshape, hshapes⟩ := List.forall_mem_cons.mp hfields
      intro field hfield
      rw [mergeFields] at hfield
      rcases Keyed.mem_insert hfield with rfl | hold
      · dsimp only
        split
        · exact hshape
        · -- both objects have the field
          rename_i other hother
          have hp := hothers _ (Keyed.mem_of_get? hother)
          split
          · exact hmerge other hp
          · exact heither other hp
      · exact ih hmerges heithers hshapes field hold

theorem mergeAll?_getD {p : Shape → Prop} {default : Shape} (hdefault : p default)
    (hmerge : ∀ first second, p first → p second → p (merge first second)) {shapes : List Shape}
    (h : ∀ shape ∈ shapes, p shape) : p ((mergeAll? shapes).getD default) := by
  cases shapes with
  | nil => exact hdefault
  | cons first rest =>
      obtain ⟨hfirst, hrest⟩ := List.forall_mem_cons.mp h
      rw [mergeAll?, Option.getD_some]
      induction rest generalizing first with
      | nil => exact hfirst
      | cons second rest ih =>
          obtain ⟨hsecond, hrest⟩ := List.forall_mem_cons.mp hrest
          have hmerged := hmerge first second hfirst hsecond
          exact ih _ (List.forall_mem_cons.mpr ⟨hmerged, hrest⟩) hmerged hrest

/-! ## Depth -/

theorem depthOfFields_le_iff {fields : List (String × Shape)} {n : Nat} :
    depthOfFields fields ≤ n ↔ ∀ field ∈ fields, field.2.depth ≤ n := by
  induction fields with
  | nil => simp [depthOfFields]
  | cons field rest ih => simp [depthOfFields, ih]

theorem depthOfMembers_le_iff {members : List Shape} {n : Nat} :
    depthOfMembers members ≤ n ↔ ∀ member ∈ members, member.depth ≤ n := by
  induction members with
  | nil => simp [depthOfMembers]
  | cons member rest ih => simp [depthOfMembers, ih]

/-- Alternatives stand at the depth of the shape itself. -/
theorem depth_alternatives_le {shape : Shape} :
    ∀ member ∈ shape.alternatives, member.depth ≤ shape.depth := by
  cases shape with
  | union members => exact depthOfMembers_le_iff.mp (Nat.le_refl _)
  | _ => exact List.forall_mem_singleton.mpr (Nat.le_refl _)

theorem depth_oneOf_le {shapes : List Shape} {n : Nat} (h : ∀ shape ∈ shapes, shape.depth ≤ n) :
    (oneOf shapes).depth ≤ n := by
  have hparts : ∀ member ∈ shapes.flatMap alternatives, member.depth ≤ n := by
    intro member hmember
    obtain ⟨shape, hshape, hin⟩ := List.mem_flatMap.mp hmember
    exact Nat.le_trans (depth_alternatives_le member hin) (h shape hshape)
  rcases oneOf_cases shapes with heq | ⟨_, hmem | ⟨members, heq, _, _, hmem⟩⟩
  · rw [heq]
    exact Nat.zero_le n
  · exact hparts _ hmem
  · rw [heq, depth, depthOfMembers_le_iff]
    exact fun member hmember => hparts member (hmem member hmember)

/-- Normal, and not nested deeper than this. -/
structure NormalWithin (limit : Nat) (shape : Shape) : Prop where
  normal : Normal shape
  depth_le : shape.depth ≤ limit

variable {limit : Nat}

theorem normalWithin_any : NormalWithin limit .any := ⟨.any, Nat.zero_le _⟩

theorem normalWithin_scalar (kind : Scalar) : NormalWithin limit (.scalar kind) :=
  ⟨.scalar kind, Nat.zero_le _⟩

theorem NormalWithin.array {item : Shape} (h : NormalWithin limit item) :
    NormalWithin (limit + 1) (.array item) :=
  ⟨.array h.normal, (Nat.add_comm ..).trans_le (Nat.succ_le_succ h.depth_le)⟩

/-- Objects are nested one deeper than their fields. -/
theorem normalWithin_object_iff {fields : List (String × Shape)} : NormalWithin limit (.object fields) ↔
    ∃ inner, limit = inner + 1 ∧ ∀ field ∈ fields, NormalWithin inner field.2 := by
  constructor
  · rintro ⟨hnormal, hdepth⟩
    rw [depth] at hdepth
    obtain ⟨inner, rfl⟩ := Nat.exists_eq_add_of_le' (Nat.le_of_add_right_le hdepth)
    have hfields := depthOfFields_le_iff.mp (show depthOfFields fields ≤ inner by omega)
    cases hnormal with
    | object hnormal => exact ⟨inner, rfl, fun field hfield => ⟨hnormal field hfield, hfields field hfield⟩⟩
  · rintro ⟨inner, rfl, hfields⟩
    have hdepth := depthOfFields_le_iff.mpr fun field hfield => (hfields field hfield).depth_le
    refine ⟨.object fun field hfield => (hfields field hfield).normal, ?_⟩
    rw [depth]
    omega

theorem NormalWithin.object {fields : List (String × Shape)}
    (h : ∀ field ∈ fields, NormalWithin limit field.2) : NormalWithin (limit + 1) (.object fields) :=
  normalWithin_object_iff.mpr ⟨limit, rfl, h⟩

theorem NormalWithin.mono {limit' : Nat} {shape : Shape} (h : NormalWithin limit shape)
    (hle : limit ≤ limit') :
    NormalWithin limit' shape := ⟨h.normal, h.depth_le.trans hle⟩

theorem NormalWithin.oneOf {shapes : List Shape} (h : ∀ shape ∈ shapes, NormalWithin limit shape) :
    NormalWithin limit (oneOf shapes) :=
  ⟨.oneOf fun shape hshape => (h shape hshape).normal,
    depth_oneOf_le fun shape hshape => (h shape hshape).depth_le⟩

theorem NormalWithin.either {first second : Shape} (h : NormalWithin limit first)
    (h' : NormalWithin limit second) : NormalWithin limit (either first second) := by
  unfold Shape.either
  split
  · exact h
  · exact .oneOf (List.forall_mem_cons.mpr ⟨h, List.forall_mem_singleton.mpr h'⟩)

theorem NormalWithin.merge {first second : Shape} (h : NormalWithin limit first)
    (h' : NormalWithin limit second) : NormalWithin limit (merge first second) := by
  have hnormal := h.normal
  induction hnormal generalizing limit second with
  | object _ ih =>
      -- fields of both are one level down, where the limit is one less for both
      refine merge_ind h h' (h.either h') ?_
      rintro fields fields' ⟨⟩ rfl
      obtain ⟨inner, rfl, hfields⟩ := normalWithin_object_iff.mp h
      obtain ⟨_, hinner, hfields'⟩ := normalWithin_object_iff.mp h'
      cases hinner
      refine .object (mergeFields_forall (fun field hfield other hother => ?_)
        (fun field hfield other hother => (hfields field hfield).either hother) hfields hfields')
      exact ih field hfield (hfields field hfield) hother
  | _ => exact merge_ind h h' (h.either h') nofun

/-- **Two descriptions of one value, both normal, are merged into a normal one.** -/
theorem Normal.merge {first second : Shape} (h : Normal first) (h' : Normal second) :
    Normal (merge first second) := by
  have hfirst : NormalWithin (max first.depth second.depth) first := ⟨h, Nat.le_max_left _ _⟩
  exact (hfirst.merge ⟨h', Nat.le_max_right _ _⟩).normal

/-! ## Cutting off

Nothing is asked of the shape: its unions are made anew, and so become normal.
-/

mutual

/-- **What is left of a shape down to a limit is normal, and no deeper than the limit.** -/
theorem normalWithin_truncate :
    ∀ (limit : Nat) (shape : Shape), NormalWithin limit (truncate limit shape)
  | 0, .any | 0, .scalar _ | 0, .array _ | 0, .object _ | 0, .union _ => normalWithin_any
  | _ + 1, .any => normalWithin_any
  | _ + 1, .scalar kind => normalWithin_scalar kind
  | inner + 1, .array item => (normalWithin_truncate inner item).array
  | inner + 1, .object fields => .object (normalWithin_truncateFields inner fields)
  | inner + 1, .union members => .oneOf (normalWithin_truncateMembers (inner + 1) members)

theorem normalWithin_truncateFields : ∀ (limit : Nat) (fields : List (String × Shape)),
    ∀ field ∈ truncateFields limit fields, NormalWithin limit field.2
  | _, [] => fun _ hfield => absurd hfield List.not_mem_nil
  | limit, (_, shape) :: rest =>
    List.forall_mem_cons.mpr
      ⟨normalWithin_truncate limit shape, normalWithin_truncateFields limit rest⟩

theorem normalWithin_truncateMembers : ∀ (limit : Nat) (members : List Shape),
    ∀ member ∈ truncateMembers limit members, NormalWithin limit member
  | _, [] => fun _ hmember => absurd hmember List.not_mem_nil
  | limit, member :: rest =>
    List.forall_mem_cons.mpr
      ⟨normalWithin_truncate limit member, normalWithin_truncateMembers limit rest⟩

end

end DecisionGraph.Shape
