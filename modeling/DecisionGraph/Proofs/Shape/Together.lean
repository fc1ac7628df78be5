import DecisionGraph.Proofs.Shape.Conforming

/-!
# The shape of several values together

The items of an array are given one shape by merging their shapes from left to right
(`Shape.sampleAll?`). What comes out depends on where the first value stands that is no object:

1. objects alone become one object, and what stands in it under a name is the shape that all values under
   that name are given together (`exists_sampleAll?_objects`);
2. behind a value that is no object every value stands for itself (`sampleAll?_cons_eq_oneOf`), an object as
   well;
3. so the objects in front are merged, and those behind are not (`sampleAll?_append`).
-/

namespace DecisionGraph.Shape

/-- Something is known of the shape, and it is normal and has its fields in order. -/
structure Known (shape : Shape) : Prop where
  normal : Normal shape
  ordered : Ordered shape
  ne_any : shape ≠ .any

variable {first second : Shape} {shapes : List Shape}

theorem Known.merge (h : Known first) (h' : Known second) : Known (merge first second) :=
  ⟨h.normal.merge h'.normal, h.ordered.merge h'.ordered,
    merge_ne_any h.normal h'.normal h.ne_any h'.ne_any⟩

/-! ## Shapes that are told apart -/

/-- One of several shapes has the alternatives of all of them. -/
theorem mem_alternatives_oneOf_known (h : ∀ shape ∈ shapes, Known shape) (hne : shapes ≠ [])
    {member : Shape} :
    member ∈ (oneOf shapes).alternatives ↔ ∃ shape ∈ shapes, member ∈ shape.alternatives :=
  mem_alternatives_oneOf (fun shape hshape => (h shape hshape).normal) hne fun hany =>
    (h .any hany).ne_any rfl

theorem Known.either (h : Known first) (h' : Known second) : Known (either first second) :=
  ⟨h.normal.either h'.normal, h.ordered.either h'.ordered,
    either_ne_any h.normal h'.normal h.ne_any h'.ne_any⟩

theorem oneOf_either_cons (h : Known first) (h' : Known second) (hrest : ∀ shape ∈ shapes, Known shape) :
    oneOf (either first second :: shapes) = oneOf (first :: second :: shapes) := by
  have hleft : ∀ shape ∈ either first second :: shapes, Known shape :=
    List.forall_mem_cons.mpr ⟨h.either h', hrest⟩
  have hright : ∀ shape ∈ first :: second :: shapes, Known shape :=
    List.forall_mem_cons.mpr ⟨h, List.forall_mem_cons.mpr ⟨h', hrest⟩⟩
  refine (Normal.oneOf fun shape hshape => (hleft shape hshape).normal).ext
    (.oneOf fun shape hshape => (hright shape hshape).normal) fun member => ?_
  rw [mem_alternatives_oneOf_known hleft (List.cons_ne_nil _ _),
    mem_alternatives_oneOf_known hright (List.cons_ne_nil _ _)]
  simp only [List.exists_mem_cons_iff, mem_alternatives_either h.normal h'.normal h.ne_any h'.ne_any,
    or_assoc]

/-- Equal shapes are merged into one, and shapes that are not objects both are alternatives. -/
theorem merge_eq_either (h : Known first) (h' : Known second)
    (hobjects : first.isObject = true → second.isObject = true → second = first) :
    merge first second = either first second := by
  rw [merge_eq_mergeField h.ne_any h'.ne_any]
  rcases objects_or_not first second with ⟨_, _, rfl, rfl⟩ | hnot
  · rw [hobjects rfl rfl, mergeField_self h.ordered, either_self]
  · exact mergeField_of_not hnot

/-- **If the first shape is no object, or no other object comes behind it, every shape stands for itself.** -/
theorem foldl_merge_eq_oneOf (hfirst : Known first) (hshapes : ∀ shape ∈ shapes, Known shape)
    (hobjects : first.isObject = true → ∀ shape ∈ shapes, shape.isObject = true → shape = first) :
    shapes.foldl merge first = oneOf (first :: shapes) := by
  induction shapes generalizing first with
  | nil => exact hfirst.normal.oneOf_singleton.symm
  | cons second rest ih =>
      obtain ⟨hsecond, hrest⟩ := List.forall_mem_cons.mp hshapes
      have hmerged := merge_eq_either hfirst hsecond fun hobject =>
        hobjects hobject second (List.mem_cons_self ..)
      rw [List.foldl_cons, ih (hfirst.merge hsecond) hrest ?_, hmerged,
        oneOf_either_cons hfirst hsecond hrest]
      -- what is merged is an object only if both are that object
      intro hobject shape hshape hshapeObject
      rw [hmerged] at hobject ⊢
      have heq : first = second := by
        by_contra hne
        rw [isObject_either_eq_false hfirst.normal hsecond.normal hne] at hobject
        cases hobject
      subst heq
      rw [either_self] at hobject ⊢
      exact hobjects hobject shape (List.mem_cons_of_mem _ hshape) hshapeObject

/-- Behind a shape that is no object every shape stands for itself, whatever was in front. -/
theorem foldl_merge_cons_eq_oneOf (hfirst : Known first) (hsecond : Known second)
    (hshapes : ∀ shape ∈ shapes, Known shape) (hobject : second.isObject = false) :
    (second :: shapes).foldl merge first = oneOf (first :: second :: shapes) := by
  have heither := merge_eq_either hfirst hsecond fun _ h =>
    absurd (hobject.symm.trans h) Bool.false_ne_true
  -- what they make up is no object either
  have hnot : (either first second).isObject = false := by
    by_cases heq : first = second
    · rw [heq, either_self, hobject]
    · exact isObject_either_eq_false hfirst.normal hsecond.normal heq
  rw [List.foldl_cons, heither, foldl_merge_eq_oneOf (hfirst.either hsecond) hshapes ?_,
    oneOf_either_cons hfirst hsecond hshapes]
  rw [hnot]
  exact fun h => absurd h Bool.false_ne_true

theorem Known.foldl_merge (hfirst : Known first) (hshapes : ∀ shape ∈ shapes, Known shape) :
    Known (shapes.foldl Shape.merge first) := by
  induction shapes generalizing first with
  | nil => exact hfirst
  | cons second rest ih =>
      obtain ⟨hsecond, hrest⟩ := List.forall_mem_cons.mp hshapes
      exact ih (hfirst.merge hsecond) hrest

/-! ## Objects -/

theorem foldl_merge_objects (fields : Keyed Shape) (others : List (Keyed Shape)) :
    (others.map Shape.object).foldl merge (.object fields) = .object (others.foldl mergeFields fields) := by
  induction others generalizing fields with
  | nil => rfl
  | cons other rest ih => rw [List.map_cons, List.foldl_cons, merge, ih, List.foldl_cons]

theorem ordered_foldl_mergeFields {fields : Keyed Shape} (h : Keyed.Ordered fields)
    {others : List (Keyed Shape)} (hothers : ∀ other ∈ others, Keyed.Ordered other) :
    Keyed.Ordered (others.foldl mergeFields fields) := by
  induction others generalizing fields with
  | nil => exact h
  | cons other rest ih =>
      obtain ⟨hother, hrest⟩ := List.forall_mem_cons.mp hothers
      exact ih (ordered_mergeFields hother fields) hrest

/-- The shapes of one field in several objects, merged from left to right, if there is one at all. -/
def mergeFieldAll? : List Shape → Option Shape
  | [] => none
  | first :: rest => some (rest.foldl mergeField first)

/-- **Under each name the fields of several objects are merged from left to right.** -/
theorem get?_foldl_mergeFields (name : String) (fields : Keyed Shape) (others : List (Keyed Shape)) :
    Keyed.get? name (others.foldl mergeFields fields)
      = mergeFieldAll? ((fields :: others).filterMap (Keyed.get? name)) := by
  induction others generalizing fields with
  | nil =>
      rw [List.foldl_nil, List.filterMap_cons]
      cases Keyed.get? name fields <;> rfl
  | cons other rest ih =>
      rw [List.foldl_cons, ih, List.filterMap_cons, List.filterMap_cons, List.filterMap_cons,
        get?_mergeFields]
      cases Keyed.get? name fields with
      | none => rw [Option.merge_none_left]
      | some shape => cases Keyed.get? name other <;> rfl

/-- Fields are merged like whole shapes, if that is so for any two of a kind that is kept. -/
theorem mergeFieldAll?_eq_mergeAll? {p : Shape → Prop}
    (hp : ∀ first second, p first → p second → mergeField first second = merge first second
      ∧ p (merge first second)) (h : ∀ shape ∈ shapes, p shape) :
    mergeFieldAll? shapes = mergeAll? shapes := by
  cases shapes with
  | nil => rfl
  | cons first rest =>
      obtain ⟨hfirst, hrest⟩ := List.forall_mem_cons.mp h
      rw [mergeFieldAll?, mergeAll?]
      clear h
      induction rest generalizing first with
      | nil => rfl
      | cons second rest ih =>
          obtain ⟨hsecond, hrest⟩ := List.forall_mem_cons.mp hrest
          obtain ⟨heq, hmerged⟩ := hp first second hfirst hsecond
          rw [List.foldl_cons, List.foldl_cons, heq]
          exact ih _ hmerged hrest

/-! ## Samples -/

mutual

/-- The fields of objects in the shape of a sample stand in order. -/
theorem ordered_sample (room : Nat) : ∀ value : Json, Ordered (sample room value)
  | .null | .boolean _ | .number _ | .text _ => by
    cases room with
    | zero => exact .any
    | succ => exact .scalar _
  | .array items => by
    cases room with
    | zero => exact .any
    | succ room =>
        exact .array (mergeAll?_getD .any (fun _ _ h h' => h.merge h') (ordered_sampleItems room items))
  | .object members => by
    cases room with
    | zero => exact .any
    | succ room =>
        refine .object (Keyed.ordered_ofList _) fun field hfield => ?_
        exact ordered_sampleMembers room members field (Keyed.mem_of_mem_ofList hfield)

theorem ordered_sampleItems (room : Nat) :
    ∀ items : List Json, ∀ shape ∈ sampleItems room items, Ordered shape
  | [] => fun _ hshape => absurd hshape List.not_mem_nil
  | item :: rest => List.forall_mem_cons.mpr ⟨ordered_sample room item, ordered_sampleItems room rest⟩

theorem ordered_sampleMembers (room : Nat) :
    ∀ members : List (String × Json), ∀ field ∈ sampleMembers room members, Ordered field.2
  | [] => fun _ hfield => absurd hfield List.not_mem_nil
  | (_, value) :: rest =>
    List.forall_mem_cons.mpr ⟨ordered_sample room value, ordered_sampleMembers room rest⟩

end

variable {room : Nat}

theorem known_sample (room : Nat) (value : Json) : Known (sample (room + 1) value) :=
  ⟨(normalWithin_sample _ value).normal, ordered_sample _ value, sample_ne_any room value⟩

theorem known_samples (room : Nat) (values : List Json) :
    ∀ shape ∈ values.map (sample (room + 1)), Known shape :=
  List.forall_mem_map.mpr fun value _ => known_sample room value

theorem isObject_sample (room : Nat) (value : Json) :
    (sample (room + 1) value).isObject = value.members?.isSome := by cases value <;> rfl

/-- **If the first value is no object, or the other objects have its shape, every value stands for
itself.** -/
theorem sampleAll?_cons_eq_oneOf {value : Json} {values : List Json}
    (h : value.members?.isSome = true → ∀ other ∈ values, other.members?.isSome = true →
      sample (room + 1) other = sample (room + 1) value) :
    sampleAll? (room + 1) (value :: values) = some (oneOf ((value :: values).map (sample (room + 1)))) := by
  rw [sampleAll?, List.map_cons, mergeAll?]
  refine congrArg some (foldl_merge_eq_oneOf (known_sample room value) (known_samples room values) ?_)
  rw [isObject_sample]
  refine fun hvalue => List.forall_mem_map.mpr fun other hother => ?_
  rw [isObject_sample]
  exact h hvalue other hother

theorem sampleAll?_objects (first : Keyed Json) (others : List (Keyed Json)) :
    sampleAll? (room + 1) ((first :: others).map .object)
      = some (.object ((others.map (sampleFields room)).foldl mergeFields (sampleFields room first))) := by
  have hothers : (others.map Json.object).map (sample (room + 1))
      = (others.map (sampleFields room)).map Shape.object := by
    rw [List.map_map, List.map_map]
    exact List.map_congr_left fun members _ => sample_object room members
  rw [sampleAll?, List.map_cons, List.map_cons, mergeAll?, hothers, sample_object, foldl_merge_objects]

/-- **Objects become one object, with the shape of all values under a name together under that name.** -/
theorem exists_sampleAll?_objects (room : Nat) {objects : List (Keyed Json)} (hne : objects ≠ [])
    (hdistinct : ∀ members ∈ objects, (Keyed.names members).Nodup) : ∃ fields,
      sampleAll? (room + 1) (objects.map .object) = some (.object fields) ∧ Keyed.Ordered fields
        ∧ ∀ name, Keyed.get? name fields = sampleAll? room (objects.filterMap (Keyed.get? name)) := by
  cases objects with
  | nil => exact absurd rfl hne
  | cons first others =>
      refine ⟨_, sampleAll?_objects first others,
        ordered_foldl_mergeFields (ordered_sampleFields room first) ?_, fun name => ?_⟩
      · exact List.forall_mem_map.mpr fun members _ => ordered_sampleFields room members
      · have hget : ((first :: others).map (sampleFields room)).filterMap (Keyed.get? name)
            = ((first :: others).filterMap (Keyed.get? name)).map (sample room) := by
          rw [List.filterMap_map, List.map_filterMap]
          exact List.filterMap_congr fun members hmembers =>
            get?_sampleFields (hdistinct members hmembers) room name
        rw [get?_foldl_mergeFields, ← List.map_cons, hget, sampleAll?]
        -- either something is known of all of them or of none
        cases room with
        | zero =>
            refine mergeFieldAll?_eq_mergeAll? (p := (· = .any)) ?_
              (List.forall_mem_map.mpr fun value _ => sample_zero value)
            rintro _ _ rfl rfl
            exact ⟨rfl, rfl⟩
        | succ room =>
            refine mergeFieldAll?_eq_mergeAll? ?_ (known_samples room _)
            exact fun _ _ h h' => ⟨(merge_eq_mergeField h.ne_any h'.ne_any).symm, h.merge h'⟩

theorem known_sampleAll? {values : List Json} {shape : Shape}
    (h : sampleAll? (room + 1) values = some shape) : Known shape := by
  cases values with
  | nil => cases h
  | cons value rest =>
      rw [sampleAll?, List.map_cons, mergeAll?] at h
      exact Option.some.inj h ▸ (known_sample room value).foldl_merge (known_samples room rest)

/-- **The objects in front are merged, and every value behind them stands for itself.** -/
theorem sampleAll?_append {objects : List (Keyed Json)} {rest : List Json} {merged : Shape}
    (hmerged : sampleAll? (room + 1) (objects.map .object) = some merged)
    (hrest : ∀ value ∈ rest.head?, value.members? = none) :
    sampleAll? (room + 1) (objects.map .object ++ rest)
      = some (oneOf (merged :: rest.map (sample (room + 1)))) := by
  have hknown := known_sampleAll? hmerged
  cases objects with
  | nil => cases hmerged
  | cons first others =>
      rw [sampleAll?, List.map_cons, List.map_cons, mergeAll?] at hmerged
      rw [sampleAll?, List.map_append, List.map_cons, List.map_cons, List.cons_append, mergeAll?,
        List.foldl_append, Option.some.inj hmerged]
      cases rest with
      | nil => rw [List.map_nil, List.foldl_nil, hknown.normal.oneOf_singleton]
      | cons value rest =>
          have hobject : (sample (room + 1) value).isObject = false := by
            rw [isObject_sample, hrest value rfl]
            rfl
          rw [List.map_cons, foldl_merge_cons_eq_oneOf hknown (known_sample room value)
            (known_samples room rest) hobject]

end DecisionGraph.Shape
