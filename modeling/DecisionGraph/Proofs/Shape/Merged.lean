import DecisionGraph.Proofs.Shape.Alternatives

/-!
# What a merge keeps

Two descriptions of one value are merged into one that covers both (`Shape.Covers`), in either order alike,
and merging one of them in again changes nothing (`Shape.merge_laws`).

`any` is neutral for a whole shape but stands for everything in a field, so the laws are shown for what
becomes of a field that both objects have (`Shape.mergeField`); a whole shape that is not `any` is merged in
the same way. That is an induction on the first shape. Where both are objects, the fields of the merged
object are those of both, merged name by name (`get?_mergeFields`); everywhere else the laws are those of
sets of alternatives. Since an object is the list of its fields, they are asked to stand in order
(`Shape.Ordered`).
-/

namespace DecisionGraph.Shape

/-- The fields of every object in the shape, at any depth, stand in the order of their names. -/
inductive Ordered : Shape → Prop
  | any : Ordered .any
  | scalar (kind : Scalar) : Ordered (.scalar kind)
  | array {item : Shape} (hitem : Ordered item) : Ordered (.array item)
  | object {fields : Keyed Shape} (hordered : Keyed.Ordered fields)
      (hfields : ∀ field ∈ fields, Ordered field.2) : Ordered (.object fields)
  | union {members : List Shape} (hmembers : ∀ member ∈ members, Ordered member) : Ordered (.union members)

theorem ordered_object_iff {fields : Keyed Shape} :
    Ordered (.object fields) ↔ Keyed.Ordered fields ∧ ∀ field ∈ fields, Ordered field.2 := by
  constructor
  · intro h
    cases h with
    | object hordered hfields => exact ⟨hordered, hfields⟩
  · exact fun ⟨hordered, hfields⟩ => .object hordered hfields

/-- Whatever the second shape allows for, the first does: it is `any`, or has all alternatives of the
second, or both are objects and it has each field of the second with a shape that covers that. -/
inductive Covers : Shape → Shape → Prop
  | any (shape : Shape) : Covers .any shape
  | alternatives {cover shape : Shape} (h : ∀ member ∈ shape.alternatives, member ∈ cover.alternatives) :
      Covers cover shape
  | object {covering fields : Keyed Shape} (hnames : ∀ name ∈ Keyed.names fields, name ∈ Keyed.names covering)
      (hshapes : ∀ name cover shape, Keyed.get? name covering = some cover →
        Keyed.get? name fields = some shape → Covers cover shape) :
      Covers (.object covering) (.object fields)

variable {first second : Shape}

/-! ## Two alternatives -/

theorem either_comm (first second : Shape) : either first second = either second first := by
  unfold either
  by_cases heq : first = second
  · rw [if_pos heq, if_pos heq.symm, heq]
  · rw [if_neg heq, if_neg (Ne.symm heq)]
    exact oneOf_congr fun shape => by simp [or_comm]

theorem either_self (shape : Shape) : either shape shape = shape := if_pos rfl

theorem forall_mem_pair {α : Type} {p : α → Prop} {a b : α} (h : p a) (h' : p b) : ∀ c ∈ [a, b], p c :=
  List.forall_mem_cons.mpr ⟨h, List.forall_mem_singleton.mpr h'⟩

theorem Normal.either_eq (h : Normal first) (second : Shape) :
    either first second = Shape.oneOf [first, second] := by
  unfold either
  split
  · rename_i heq
    have hsame : Shape.oneOf [first, second] = Shape.oneOf [first] := oneOf_congr fun shape => by simp [heq]
    rw [hsame, h.oneOf_singleton]
  · rfl

theorem Normal.either_any (h : Normal first) : either first .any = .any := by
  rw [h.either_eq]
  exact oneOf_of_any_mem (List.mem_cons_of_mem _ (List.mem_singleton_self _))

theorem Normal.any_either (h : Normal first) : either .any first = .any := by
  rw [either_comm, h.either_any]

theorem Normal.either (h : Normal first) (h' : Normal second) : Normal (either first second) := by
  rw [h.either_eq]
  exact .oneOf (forall_mem_pair h h')

section Alternatives

variable (h : Normal first) (h' : Normal second) (hany : first ≠ .any) (hany' : second ≠ .any)

include h h' hany hany'

/-- **One of two shapes has the alternatives of both.** -/
theorem mem_alternatives_either {member : Shape} : member ∈ (either first second).alternatives ↔
    member ∈ first.alternatives ∨ member ∈ second.alternatives := by
  rw [h.either_eq, mem_alternatives_oneOf (forall_mem_pair h h') (List.cons_ne_nil _ _)
    (by simpa using ⟨hany.symm, hany'.symm⟩)]
  simp

theorem either_ne_any : either first second ≠ .any := by
  rw [h.either_eq, Ne, oneOf_eq_any_iff (forall_mem_pair h h') (List.cons_ne_nil _ _)]
  simpa using ⟨hany.symm, hany'.symm⟩

end Alternatives

/-- What is one of two shapes takes in either of them. -/
theorem either_either (h : Normal first) (h' : Normal second) :
    either first (either first second) = either first second := by
  by_cases hany : first = .any
  · rw [hany, h'.any_either, either_self]
  by_cases hany' : second = .any
  · rw [hany', h.either_any, h.either_any]
  have heither := h.either h'
  have hne := either_ne_any h h' hany hany'
  refine (h.either heither).ext heither fun member => ?_
  simp only [mem_alternatives_either h heither hany hne, mem_alternatives_either h h' hany hany']
  tauto

/-- One of two shapes is an alternative only if they are equal. -/
theorem eq_of_isAlternative_either (h : Normal first) (h' : Normal second)
    (halternative : (either first second).IsAlternative) : first = second := by
  by_cases hany : first = .any
  · rw [hany, h'.any_either] at halternative
    cases halternative
  by_cases hany' : second = .any
  · rw [hany', h.either_any] at halternative
    cases halternative
  have hmem (member : Shape) : member ∈ [either first second] ↔
      member ∈ first.alternatives ∨ member ∈ second.alternatives := by
    rw [← halternative.alternatives]
    exact mem_alternatives_either h h' hany hany'
  -- each has the one alternative, and so is it
  have hsame (shape : Shape) (hshape : Normal shape)
      (hsub : ∀ member ∈ shape.alternatives, member ∈ [either first second]) :
      shape = either first second := by
    refine hshape.ext (h.either h') fun member => ?_
    rw [halternative.alternatives]
    refine ⟨hsub member, fun hmember => ?_⟩
    obtain ⟨part, hpart⟩ := hshape.exists_alternative
    rwa [List.mem_singleton.mp hmember, ← List.mem_singleton.mp (hsub part hpart)]
  exact (hsame first h fun member hin => (hmem member).mpr (.inl hin)).trans
    (hsame second h' fun member hin => (hmem member).mpr (.inr hin)).symm

theorem isObject_either_eq_false (h : Normal first) (h' : Normal second) (hne : first ≠ second) :
    (either first second).isObject = false := by
  refine Bool.eq_false_iff.mpr fun hobject => hne (eq_of_isAlternative_either h h' ?_)
  generalize either first second = shape at hobject
  cases shape <;> trivial

/-! ## A field of both objects -/

/-- The shape of a field that both objects have. -/
def mergeField (shape other : Shape) : Shape :=
  if shape.isObject && other.isObject then merge shape other else either shape other

theorem mergeField_objects (fields : List (String × Shape)) (fields' : Keyed Shape) :
    mergeField (.object fields) (.object fields') = .object (mergeFields fields fields') := by
  simp [mergeField, isObject, merge]

theorem mergeField_of_not (h : (first.isObject && second.isObject) = false) :
    mergeField first second = either first second := by
  rw [mergeField, h, if_neg Bool.false_ne_true]

theorem objects_or_not (first second : Shape) :
    (∃ fields fields', first = .object fields ∧ second = .object fields')
      ∨ (first.isObject && second.isObject) = false := by
  cases first with
  | object fields =>
      cases second with
      | object fields' => exact .inl ⟨fields, fields', rfl, rfl⟩
      | _ => exact .inr rfl
  | _ => exact .inr rfl

/-- Induction on two normal shapes along what a merge does with them: it goes into the fields of two
objects, and all other shapes are alternatives. -/
theorem pair_induction {P : Shape → Shape → Prop}
    (hobjects : ∀ fields fields', (∀ field ∈ fields, Normal field.2) → (∀ field ∈ fields', Normal field.2) →
      (∀ field ∈ fields, ∀ other ∈ fields', P field.2 other.2) → P (.object fields) (.object fields'))
    (heither : ∀ first second, Normal first → Normal second →
      (first.isObject && second.isObject) = false → P first second)
    (h : Normal first) (h' : Normal second) : P first second := by
  have hfirst := h
  induction h generalizing second with
  | @object fields hfields ih =>
      rcases objects_or_not (.object fields) second with ⟨_, fields', ⟨⟩, rfl⟩ | hnot
      · cases h' with
        | object hfields' =>
            exact hobjects fields fields' hfields hfields' fun field hfield other hother =>
              ih field hfield (hfields' other hother) (hfields field hfield)
      · exact heither _ _ hfirst h' hnot
  | _ => exact heither _ _ hfirst h' rfl

/-- **The fields of a merged object are those of both, merged name by name.** -/
theorem get?_mergeFields (name : String) (fields : List (String × Shape)) (others : Keyed Shape) :
    Keyed.get? name (mergeFields fields others)
      = Option.merge mergeField (Keyed.get? name fields) (Keyed.get? name others) := by
  induction fields with
  | nil => exact Option.merge_none_left.symm
  | cons field rest ih =>
      obtain ⟨key, shape⟩ := field
      rw [mergeFields, Keyed.get?_insert, Keyed.get?]
      by_cases hkey : key = name
      · rw [if_pos hkey, if_pos hkey, hkey]
        cases Keyed.get? name others <;> rfl
      · rw [if_neg hkey, if_neg hkey, ih]

theorem ordered_mergeFields {others : Keyed Shape} (h : Keyed.Ordered others)
    (fields : List (String × Shape)) : Keyed.Ordered (mergeFields fields others) := by
  induction fields with
  | nil => exact h
  | cons field rest ih => exact ih.insert _ _

/-- Two lists of fields in order are merged into the same fields if they are so under every name. -/
theorem mergeFields_ext {fields fields' : List (String × Shape)} {others others' : Keyed Shape}
    (h : Keyed.Ordered others) (h' : Keyed.Ordered others')
    (heq : ∀ name, Option.merge mergeField (Keyed.get? name fields) (Keyed.get? name others)
      = Option.merge mergeField (Keyed.get? name fields') (Keyed.get? name others')) :
    mergeFields fields others = mergeFields fields' others' :=
  (ordered_mergeFields h fields).ext (ordered_mergeFields h' fields') fun name => by
    rw [get?_mergeFields, get?_mergeFields, heq]

/-! ## The laws for a field -/

theorem mergeField_comm (h : Normal first) (h' : Normal second) (hordered : Ordered first)
    (hordered' : Ordered second) : mergeField first second = mergeField second first := by
  revert hordered hordered'
  refine pair_induction (P := fun first second => Ordered first → Ordered second →
    mergeField first second = mergeField second first) ?_ ?_ h h'
  · intro fields fields' _ _ ih hordered hordered'
    obtain ⟨hnames, hfields⟩ := ordered_object_iff.mp hordered
    obtain ⟨hnames', hfields'⟩ := ordered_object_iff.mp hordered'
    rw [mergeField_objects, mergeField_objects]
    refine congrArg Shape.object (mergeFields_ext hnames' hnames fun name => ?_)
    cases hshape : Keyed.get? name fields with
    | none => rw [Option.merge_none_left, Option.merge_none_right]
    | some shape =>
        cases hother : Keyed.get? name fields' with
        | none => rfl
        | some other =>
            have hmem := Keyed.mem_of_get? hshape
            have hmem' := Keyed.mem_of_get? hother
            have hmerged := ih _ hmem _ hmem' (hfields _ hmem) (hfields' _ hmem')
            rw [Option.merge_some_some, Option.merge_some_some, hmerged]
  · intro first second _ _ hnot _ _
    rw [mergeField_of_not hnot, mergeField_of_not ((Bool.and_comm ..).trans hnot), either_comm]

theorem mergeField_self {shape : Shape} (h : Ordered shape) : mergeField shape shape = shape := by
  induction h with
  | @object fields hnames _ ih =>
      rw [mergeField_objects]
      refine congrArg Shape.object ((ordered_mergeFields hnames fields).ext hnames fun name => ?_)
      rw [get?_mergeFields]
      cases hshape : Keyed.get? name fields with
      | none => rfl
      | some shape =>
          have hmerged := ih _ (Keyed.mem_of_get? hshape)
          rw [Option.merge_some_some, hmerged]
  | _ => rw [mergeField_of_not rfl, either_self]

/-- What is merged with a shape takes that in. -/
theorem mergeField_mergeField (h : Normal first) (h' : Normal second) (hordered : Ordered first)
    (hordered' : Ordered second) :
    mergeField first (mergeField first second) = mergeField first second := by
  revert hordered hordered'
  refine pair_induction (P := fun first second => Ordered first → Ordered second →
    mergeField first (mergeField first second) = mergeField first second) ?_ ?_ h h'
  · intro fields fields' _ _ ih hordered hordered'
    obtain ⟨_, hfields⟩ := ordered_object_iff.mp hordered
    obtain ⟨hnames', hfields'⟩ := ordered_object_iff.mp hordered'
    rw [mergeField_objects, mergeField_objects]
    refine congrArg Shape.object (mergeFields_ext (ordered_mergeFields hnames' fields) hnames' fun name => ?_)
    rw [get?_mergeFields]
    cases hshape : Keyed.get? name fields with
    | none => rw [Option.merge_none_left, Option.merge_none_left]
    | some shape =>
        have hmem := Keyed.mem_of_get? hshape
        cases hother : Keyed.get? name fields' with
        | none =>
            have hmerged := mergeField_self (hfields _ hmem)
            rw [Option.merge_none_right, Option.merge_some_some, hmerged]
        | some other =>
            have hmem' := Keyed.mem_of_get? hother
            have hmerged := ih _ hmem _ hmem' (hfields _ hmem) (hfields' _ hmem')
            rw [Option.merge_some_some, Option.merge_some_some, hmerged]
  · intro first second h h' hnot _ _
    -- what is made of an object and another shape is no object
    have hnot' : (first.isObject && (either first second).isObject) = false := by
      by_cases heq : first = second
      · rw [heq, either_self]
        exact heq ▸ hnot
      · rw [isObject_either_eq_false h h' heq, Bool.and_false]
    rw [mergeField_of_not hnot, mergeField_of_not hnot', either_either h h']

/-! ## Covering -/

theorem Covers.refl (shape : Shape) : Covers shape shape := .alternatives fun _ hmember => hmember

theorem covers_either (h : Normal first) (h' : Normal second) :
    Covers (either first second) first ∧ Covers (either first second) second := by
  by_cases hany : first = .any
  · rw [hany, h'.any_either]
    exact ⟨.any _, .any _⟩
  by_cases hany' : second = .any
  · rw [hany', h.either_any]
    exact ⟨.any _, .any _⟩
  have hmem {member : Shape} : member ∈ (either first second).alternatives
      ↔ member ∈ first.alternatives ∨ member ∈ second.alternatives :=
    mem_alternatives_either h h' hany hany'
  exact ⟨.alternatives fun _ hin => hmem.mpr (.inl hin), .alternatives fun _ hin => hmem.mpr (.inr hin)⟩

/-- A merged object covers what it covers name by name. -/
theorem covers_mergeFields {fields : List (String × Shape)} {others parts : Keyed Shape}
    (h : ∀ name shape, Keyed.get? name parts = some shape → ∃ cover,
      Option.merge mergeField (Keyed.get? name fields) (Keyed.get? name others) = some cover
        ∧ Covers cover shape) :
    Covers (.object (mergeFields fields others)) (.object parts) := by
  refine .object (fun name hname => ?_) fun name cover shape hcover hshape => ?_
  · obtain ⟨shape, hshape⟩ := Option.isSome_iff_exists.mp (Keyed.mem_names.mp hname)
    obtain ⟨cover, hcover, _⟩ := h name shape hshape
    rw [Keyed.mem_names, get?_mergeFields, hcover]
    rfl
  · obtain ⟨cover', hcover', hcovers⟩ := h name shape hshape
    rw [get?_mergeFields, hcover'] at hcover
    exact Option.some.inj hcover ▸ hcovers

theorem covers_mergeField (h : Normal first) (h' : Normal second) :
    Covers (mergeField first second) first ∧ Covers (mergeField first second) second := by
  refine pair_induction (P := fun first second => Covers (mergeField first second) first
    ∧ Covers (mergeField first second) second) ?_ ?_ h h'
  · intro fields fields' _ _ ih
    have hboth {name : String} {shape other : Shape} (hshape : Keyed.get? name fields = some shape)
        (hother : Keyed.get? name fields' = some other) :=
      ih _ (Keyed.mem_of_get? hshape) _ (Keyed.mem_of_get? hother)
    rw [mergeField_objects]
    constructor
    · refine covers_mergeFields fun name shape hshape => ?_
      cases hother : Keyed.get? name fields' with
      | none => exact ⟨shape, by rw [hshape, Option.merge_none_right], .refl shape⟩
      | some other => exact ⟨_, by rw [hshape, Option.merge_some_some], (hboth hshape hother).1⟩
    · refine covers_mergeFields fun name other hother => ?_
      cases hshape : Keyed.get? name fields with
      | none => exact ⟨other, by rw [hother, Option.merge_none_left], .refl other⟩
      | some shape => exact ⟨_, by rw [hother, Option.merge_some_some], (hboth hshape hother).2⟩
  · intro first second h h' hnot
    rw [mergeField_of_not hnot]
    exact covers_either h h'

/-! ## Whole shapes -/

theorem any_merge (shape : Shape) : merge .any shape = shape := by cases shape <;> simp [merge]

theorem merge_any (shape : Shape) : merge shape .any = shape := by cases shape <;> simp [merge]

/-- **Two shapes about which something is known are merged as a field of both is.** -/
theorem merge_eq_mergeField (h : first ≠ .any) (h' : second ≠ .any) :
    merge first second = mergeField first second := by
  rcases objects_or_not first second with ⟨fields, fields', rfl, rfl⟩ | hnot
  · rw [mergeField_objects, merge]
  · rw [mergeField_of_not hnot]
    unfold merge
    split
    · cases hnot
    · exact absurd rfl h
    · exact absurd rfl h'
    · rfl

theorem mergeField_ne_any (h : Normal first) (h' : Normal second) (hany : first ≠ .any)
    (hany' : second ≠ .any) : mergeField first second ≠ .any := by
  rcases objects_or_not first second with ⟨fields, fields', rfl, rfl⟩ | hnot
  · rw [mergeField_objects]
    exact nofun
  · rw [mergeField_of_not hnot]
    exact either_ne_any h h' hany hany'

/-- Something is known of what is merged from shapes of which something is known. -/
theorem merge_ne_any (h : Normal first) (h' : Normal second) (hany : first ≠ .any)
    (hany' : second ≠ .any) : merge first second ≠ .any := by
  rw [merge_eq_mergeField hany hany']
  exact mergeField_ne_any h h' hany hany'

theorem covers_merge (h : Normal first) (h' : Normal second) (hany : first ≠ .any)
    (hany' : second ≠ .any) : Covers (merge first second) first ∧ Covers (merge first second) second := by
  rw [merge_eq_mergeField hany hany']
  exact covers_mergeField h h'

theorem merge_comm (h : Normal first) (h' : Normal second) (hordered : Ordered first)
    (hordered' : Ordered second) : merge first second = merge second first := by
  by_cases hany : first = .any
  · rw [hany, any_merge, merge_any]
  by_cases hany' : second = .any
  · rw [hany', any_merge, merge_any]
  rw [merge_eq_mergeField hany hany', merge_eq_mergeField hany' hany,
    mergeField_comm h h' hordered hordered']

theorem merge_self {shape : Shape} (h : Ordered shape) : merge shape shape = shape := by
  by_cases hany : shape = .any
  · rw [hany, any_merge]
  · rw [merge_eq_mergeField hany hany, mergeField_self h]

theorem merge_merge (h : Normal first) (h' : Normal second) (hordered : Ordered first)
    (hordered' : Ordered second) : merge first (merge first second) = merge first second := by
  by_cases hany : first = .any
  · rw [hany, any_merge]
  by_cases hany' : second = .any
  · rw [hany', merge_any, merge_self hordered]
  rw [merge_eq_mergeField hany (merge_ne_any h h' hany hany'), merge_eq_mergeField hany hany',
    mergeField_mergeField h h' hordered hordered']

/--
**Merging is a sound combination of two descriptions, in either order alike.**

Of normal shapes the order does not matter, a shape adds nothing to itself or to what it was merged into,
and `any` adds nothing. Where something is known on both sides, what is merged covers both.
-/
theorem merge_laws (h : Normal first) (h' : Normal second) (hordered : Ordered first)
    (hordered' : Ordered second) :
    merge first second = merge second first
      ∧ merge first first = first
      ∧ merge .any first = first
      ∧ merge first (merge first second) = merge first second
      ∧ (first ≠ .any → second ≠ .any →
        Covers (merge first second) first ∧ Covers (merge first second) second) :=
  ⟨merge_comm h h' hordered hordered', merge_self hordered, any_merge first,
    merge_merge h h' hordered hordered', covers_merge h h'⟩

/-- A field that is a scalar here and one of two there, and a field with an object on both sides. -/
theorem merge_laws_fields :
    let first : Shape := .object [("a", .null), ("b", .object [("x", .number)])]
    let second : Shape := .object [("a", .union [.number, .text]), ("b", .object [("y", .any)])]
    let both : Shape :=
      .object [("a", .union [.null, .number, .text]), ("b", .object [("x", .number), ("y", .any)])]
    Normal first ∧ Normal second ∧ Ordered first ∧ Ordered second
      ∧ merge second first = both ∧ merge first both = both
      ∧ Covers both first ∧ Covers both second := by
  intro first second both
  have hunion : Normal (.union [.number, .text]) :=
    .union (by decide) (List.pairwise_pair.mpr rfl) (by simp [IsAlternative])
      (forall_mem_pair (.scalar _) (.scalar _))
  have h : Normal first :=
    .object (forall_mem_pair (.scalar _) (.object (List.forall_mem_singleton.mpr (.scalar _))))
  have h' : Normal second :=
    .object (forall_mem_pair hunion (.object (List.forall_mem_singleton.mpr .any)))
  have hordered : Ordered first :=
    .object (by decide) (forall_mem_pair (.scalar _)
      (.object (by decide) (List.forall_mem_singleton.mpr (.scalar _))))
  have hordered' : Ordered second :=
    .object (by decide) (forall_mem_pair (.union (forall_mem_pair (.scalar _) (.scalar _)))
      (.object (by decide) (List.forall_mem_singleton.mpr .any)))
  have hboth : merge first second = both := rfl
  obtain ⟨hcomm, _, _, hagain, hcovers⟩ := merge_laws h h' hordered hordered'
  rw [hboth] at hcomm hagain hcovers
  exact ⟨h, h', hordered, hordered', hcomm.symm, hagain, hcovers nofun nofun⟩

/-! ## The order of fields is kept -/

theorem Ordered.alternatives {shape : Shape} (h : Ordered shape) :
    ∀ member ∈ shape.alternatives, Ordered member := by
  cases h with
  | union hmembers => exact hmembers
  | any => exact List.forall_mem_singleton.mpr .any
  | scalar kind => exact List.forall_mem_singleton.mpr (.scalar kind)
  | array hitem => exact List.forall_mem_singleton.mpr (.array hitem)
  | object hnames hfields => exact List.forall_mem_singleton.mpr (.object hnames hfields)

theorem Ordered.oneOf {shapes : List Shape} (h : ∀ shape ∈ shapes, Ordered shape) :
    Ordered (oneOf shapes) := by
  have hparts : ∀ member ∈ shapes.flatMap Shape.alternatives, Ordered member := by
    intro member hmember
    obtain ⟨shape, hshape, hin⟩ := List.mem_flatMap.mp hmember
    exact (h shape hshape).alternatives member hin
  rcases oneOf_cases shapes with heq | ⟨_, hmem | ⟨members, heq, _, _, hmem⟩⟩
  · exact heq ▸ .any
  · exact hparts _ hmem
  · exact heq ▸ .union fun member hmember => hparts member (hmem member hmember)

theorem Ordered.either (h : Ordered first) (h' : Ordered second) : Ordered (either first second) := by
  unfold Shape.either
  split
  · exact h
  · exact .oneOf (forall_mem_pair h h')

/-- **What is merged from shapes with fields in order has its fields in order.** -/
theorem Ordered.merge (h : Ordered first) (h' : Ordered second) : Ordered (merge first second) := by
  have hfirst := h
  induction h generalizing second with
  | @object fields _ hfields ih =>
      refine merge_ind hfirst h' (hfirst.either h') ?_
      rintro _ fields' ⟨⟩ rfl
      obtain ⟨hnames', hfields'⟩ := ordered_object_iff.mp h'
      refine .object (ordered_mergeFields hnames' fields) (mergeFields_forall ?_ ?_ hfields hfields')
      · exact fun field hfield other hother => ih field hfield hother (hfields field hfield)
      · exact fun field hfield other hother => (hfields field hfield).either hother
  | _ => exact merge_ind hfirst h' (hfirst.either h') nofun

end DecisionGraph.Shape
