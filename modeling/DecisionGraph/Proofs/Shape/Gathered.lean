import DecisionGraph.Proofs.Json.Reordered
import DecisionGraph.Proofs.Shape.Together

/-!
# Samples that have one shape in every order

The objects in front of an array are merged, and those behind a value that is no object are not
(`Shape.sampleAll?_append`). So the shape of a sample can depend on the order of the items of its arrays
(`Shape.ofSample_depends_on_order`). This module shows when it does not (`Shape.ofSample_reordered`). Three
properties of values that are given one shape together come to the same:

1. No order makes a difference to that shape (`Json.Steady`).
2. In no order two objects stand side by side in one of its unions: all that is there of objects is gathered
   in one (`Shape.Gathered`).
3. Either all of the values are objects, and it is so with the values under each name, or all objects among
   them have one shape, and it is so with every value alone (`Json.Uniform`).

From 3 follows 1 by induction on `Json.Uniform`. From 1 follows 2, and from 2 follows 3, both by induction on
the number of levels: where all values are objects the names are looked at one by one, and otherwise the
values are brought in an order in which each stands for itself (`exists_apart`).
-/

namespace DecisionGraph

open Json (Rearranged rearranged_of_perm rearranged_singleton distinct_values nodup_names)

/-- At most one of the shapes is an object. -/
def Shape.OneObject (shapes : List Shape) : Prop :=
  ∀ first ∈ shapes, ∀ second ∈ shapes, first.isObject = true → second.isObject = true → first = second

/-- In every union of the shape, at any depth, at most one member is an object. -/
inductive Shape.Gathered : Shape → Prop
  | any : Gathered .any
  | scalar (kind : Scalar) : Gathered (.scalar kind)
  | array {item : Shape} (hitem : Gathered item) : Gathered (.array item)
  | object {fields : Keyed Shape} (hfields : ∀ field ∈ fields, Gathered field.2) : Gathered (.object fields)
  | union {members : List Shape} (hmembers : ∀ member ∈ members, Gathered member)
      (hone : OneObject members) : Gathered (.union members)

namespace Json

/-- No order of the values makes a difference to the shape that they are given together. -/
def Steady (room : Nat) (values : List Json) : Prop :=
  ∀ others, Rearranged values others → Shape.sampleAll? room others = Shape.sampleAll? room values

/-- In every order, the objects in the shape that the values are given together are gathered. -/
def AlwaysGathered (room : Nat) (values : List Json) : Prop :=
  ∀ others, Rearranged values others → Shape.Gathered ((Shape.sampleAll? room others).getD .any)

/-- The values are no mixture of different objects with other values, nor are those in them that are given
one shape together: the items of an array, and what several objects have under one name. -/
inductive Uniform : Nat → List Json → Prop
  | cut (values : List Json) : Uniform 0 values
  | objects {room : Nat} {objects : List (Keyed Json)}
      (hvalues : ∀ name, Uniform room (objects.filterMap (Keyed.get? name))) :
      Uniform (room + 1) (objects.map .object)
  | apart {room : Nat} {values : List Json} (hone : Shape.OneObject (values.map (Shape.sample (room + 1))))
      (hitems : ∀ items, .array items ∈ values → Uniform room items)
      (halone : ∀ members, .object members ∈ values → Uniform (room + 1) [.object members]) :
      Uniform (room + 1) values

end Json

namespace Shape

open Json (Steady AlwaysGathered Uniform)

variable {room : Nat} {values others : List Json}

/-! ## Values that are objects -/

section Objects

variable {objects objects' : List (Keyed Json)}
  (hdistinct : ∀ value ∈ objects.map Json.object, value.Distinct)

include hdistinct

/-- Objects in another order are given the same shape exactly if the values under each name are. -/
theorem sampleAll?_objects_eq_iff (h : Rearranged (objects.map .object) (objects'.map .object)) :
    sampleAll? (room + 1) (objects'.map .object) = sampleAll? (room + 1) (objects.map .object)
      ↔ ∀ name, sampleAll? room (objects'.filterMap (Keyed.get? name))
        = sampleAll? room (objects.filterMap (Keyed.get? name)) := by
  have hlength : objects'.length = objects.length := by simpa using h.length_eq
  by_cases hnil : objects = []
  · have hnil' : objects' = [] := List.eq_nil_of_length_eq_zero (by rw [hlength, hnil]; rfl)
    simp [hnil, hnil']
  · have hnil' : objects' ≠ [] := fun heq =>
      hnil (List.eq_nil_of_length_eq_zero (by rw [← hlength, heq]; rfl))
    obtain ⟨fields, hfields, hordered, hget⟩ := exists_sampleAll?_objects room hnil (nodup_names hdistinct)
    obtain ⟨fields', hfields', hordered', hget'⟩ :=
      exists_sampleAll?_objects room hnil' (nodup_names (h.distinct hdistinct))
    rw [hfields, hfields', Option.some.injEq, Shape.object.injEq]
    simp only [← hget, ← hget']
    exact ⟨fun heq name => heq ▸ rfl, hordered'.ext hordered⟩

/-- Objects are gathered exactly if the values under each name are. -/
theorem gathered_objects_iff : Gathered ((sampleAll? (room + 1) (objects.map .object)).getD .any)
    ↔ ∀ name, Gathered ((sampleAll? room (objects.filterMap (Keyed.get? name))).getD .any) := by
  by_cases hnil : objects = []
  · subst hnil
    exact ⟨fun _ _ => .any, fun _ => .any⟩
  · obtain ⟨fields, hfields, hordered, hget⟩ := exists_sampleAll?_objects room hnil (nodup_names hdistinct)
    rw [hfields, Option.getD_some]
    simp only [← hget]
    constructor
    · intro h name
      cases hfield : Keyed.get? name fields with
      | none => exact .any
      | some shape =>
          cases h with
          | object hgathered => exact hgathered _ (Keyed.mem_of_get? hfield)
    · intro h
      refine .object fun field hfield => ?_
      have hgathered := h field.1
      rwa [hordered.mem_iff.mp hfield] at hgathered

end Objects

/-! ## Values that stand for themselves -/

theorem isAlternative_sample (room : Nat) (value : Json) : (sample (room + 1) value).IsAlternative := by
  cases value <;> trivial

theorem mem_alternatives_oneOf_samples (hne : values ≠ []) {member : Shape} :
    member ∈ (oneOf (values.map (sample (room + 1)))).alternatives
      ↔ member ∈ values.map (sample (room + 1)) := by
  rw [mem_alternatives_oneOf_known (known_samples room values) (by simpa using hne)]
  constructor
  · intro ⟨shape, hshape, hmember⟩
    obtain ⟨value, _, rfl⟩ := List.mem_map.mp hshape
    rw [(isAlternative_sample room value).alternatives, List.mem_singleton] at hmember
    exact hmember ▸ hshape
  · intro hmember
    obtain ⟨value, _, rfl⟩ := List.mem_map.mp hmember
    refine ⟨_, hmember, ?_⟩
    rw [(isAlternative_sample room value).alternatives]
    exact List.mem_singleton_self _

theorem gathered_iff_alternatives {shape : Shape} :
    Gathered shape ↔ (∀ member ∈ shape.alternatives, Gathered member) ∧ OneObject shape.alternatives := by
  cases shape with
  | union members =>
      constructor
      · intro h
        cases h with
        | union hmembers hone => exact ⟨hmembers, hone⟩
      · exact fun ⟨hmembers, hone⟩ => .union hmembers hone
  | _ => simp [alternatives, OneObject]

theorem gathered_oneOf_samples (hne : values ≠ []) :
    Gathered (oneOf (values.map (sample (room + 1))))
      ↔ (∀ value ∈ values, Gathered (sample (room + 1) value))
        ∧ OneObject (values.map (sample (room + 1))) := by
  rw [gathered_iff_alternatives, ← List.forall_mem_map (f := sample (room + 1)) (P := Gathered)]
  unfold OneObject
  simp only [mem_alternatives_oneOf_samples hne]

/-- Where no two objects differ, every value stands for itself. -/
theorem sampleAll?_eq_oneOf (hne : values ≠ []) (hone : OneObject (values.map (sample (room + 1)))) :
    sampleAll? (room + 1) values = some (oneOf (values.map (sample (room + 1)))) := by
  cases values with
  | nil => exact absurd rfl hne
  | cons value rest =>
      refine sampleAll?_cons_eq_oneOf fun hvalue other hother hobject => ?_
      rw [← isObject_sample room] at hvalue hobject
      exact hone _ (List.mem_map_of_mem (List.mem_cons_of_mem _ hother)) _
        (List.mem_map_of_mem (List.mem_cons_self ..)) hobject hvalue

/-- **If one of the values is no object, there is an order in which each of them stands for itself**, however
each of them is reordered. -/
theorem exists_apart (room : Nat) (hother : ∃ value ∈ values, value.members? = none) {f : Json → Json}
    (hf : ∀ value ∈ values, value.Reordered (f value)) : ∃ others, Rearranged values others
      ∧ sampleAll? (room + 1) others = some (oneOf ((values.map f).map (sample (room + 1)))) := by
  obtain ⟨value, hvalue, hmembers⟩ := hother
  have hnone : (f value).members? = none := (hf value hvalue).members?_eq_none_iff.mpr hmembers
  obtain ⟨front, back, rfl⟩ := List.append_of_mem hvalue
  have hperm : ((front ++ value :: back).map f).Perm (f value :: (front ++ back).map f) :=
    List.perm_middle.map f
  refine ⟨f value :: (front ++ back).map f, ⟨_, ?_, hperm⟩, ?_⟩
  · exact List.forall₂_map_right_iff.mpr (List.forall₂_same.mpr hf)
  · rw [sampleAll?_cons_eq_oneOf fun hsome => absurd hnone (Option.isSome_iff_ne_none.mp hsome)]
    exact congrArg some (oneOf_congr fun shape => (hperm.map _).mem_iff.symm)

/-! ## One value -/

theorem steady_singleton_iff {value : Json} : Steady room [value]
    ↔ ∀ other, value.Reordered other → sample room other = sample room value := by
  constructor
  · exact fun h other hother => Option.some.inj (h [other] (rearranged_singleton.mpr ⟨other, rfl, hother⟩))
  · intro h others hothers
    obtain ⟨other, rfl, hother⟩ := rearranged_singleton.mp hothers
    exact congrArg some (h other hother)

theorem alwaysGathered_singleton_iff {value : Json} : AlwaysGathered room [value]
    ↔ ∀ other, value.Reordered other → Gathered (sample room other) := by
  constructor
  · exact fun h other hother => h [other] (rearranged_singleton.mpr ⟨other, rfl, hother⟩)
  · intro h others hothers
    obtain ⟨other, rfl, hother⟩ := rearranged_singleton.mp hothers
    exact h other hother

/-! ## What makes values steady -/

theorem sampleAll?_zero_congr (hlength : others.length = values.length) :
    sampleAll? 0 others = sampleAll? 0 values := by
  have hany : sample 0 = fun _ => .any := funext sample_zero
  rw [sampleAll?, sampleAll?, hany, List.map_const', List.map_const', hlength]

theorem sampleAll?_congr_of_getD (hlength : others.length = values.length)
    (h : (sampleAll? room others).getD .any = (sampleAll? room values).getD .any) :
    sampleAll? room others = sampleAll? room values := by
  cases values with
  | nil => rw [List.eq_nil_of_length_eq_zero hlength]
  | cons value rest =>
      cases others with
      | nil => cases hlength
      | cons => exact congrArg some h

/-- An array is steady exactly if its items are. -/
theorem steady_array_iff {items : List Json} : Steady (room + 1) [.array items] ↔ Steady room items := by
  rw [steady_singleton_iff]
  constructor
  · intro h others hothers
    have hshape := h _ hothers.array
    rw [sample_array, sample_array, Shape.array.injEq] at hshape
    exact sampleAll?_congr_of_getD hothers.length_eq hshape
  · intro h other hother
    cases hother with
    | @array _ middle others hmiddle hperm =>
        rw [sample_array, sample_array, h others ⟨middle, hmiddle, hperm⟩]

/-- Objects are steady exactly if the values under each name are. -/
theorem steady_objects_iff {objects : List (Keyed Json)}
    (hdistinct : ∀ value ∈ objects.map Json.object, value.Distinct) :
    Steady (room + 1) (objects.map .object)
      ↔ ∀ name, Steady room (objects.filterMap (Keyed.get? name)) := by
  constructor
  · intro h name others hothers
    obtain ⟨objects', hobjects', rfl⟩ := hothers.exists_objects hdistinct
    exact (sampleAll?_objects_eq_iff hdistinct hobjects').mp (h _ hobjects') name
  · intro h others hothers
    obtain ⟨objects', rfl, hnames⟩ := hothers.of_objects
    exact (sampleAll?_objects_eq_iff hdistinct hothers).mpr fun name => h name _ (hnames name)

/-- Where no value is an object, only the arrays among them need to be uniform. -/
theorem uniform_of_no_objects (room : Nat) (hmembers : ∀ value ∈ values, value.members? = none)
    (hitems : ∀ items, .array items ∈ values → Uniform room items) : Uniform (room + 1) values := by
  refine .apart (fun first hfirst _ _ hobject => ?_) hitems fun members hobject => ?_
  · obtain ⟨value, hvalue, rfl⟩ := List.mem_map.mp hfirst
    rw [isObject_sample, hmembers value hvalue] at hobject
    cases hobject
  · cases hmembers _ hobject

/-- If no value has another shape when it is reordered, then the same shapes are there in every order. -/
theorem mem_samples_rearranged {room : Nat} (hrearranged : Rearranged values others)
    (h : ∀ value ∈ values, ∀ other, value.Reordered other → sample room other = sample room value)
    {shape : Shape} : shape ∈ others.map (sample room) ↔ shape ∈ values.map (sample room) := by
  obtain ⟨middle, hvalues, hperm⟩ := hrearranged
  rw [← (hperm.map (sample room)).mem_iff]
  have hsame : middle.map (sample room) = values.map (sample room) := by
    clear hperm
    induction hvalues with
    | nil => rfl
    | cons hfirst _ ih =>
        obtain ⟨hvalue, hrest⟩ := List.forall_mem_cons.mp h
        rw [List.map_cons, List.map_cons, hvalue _ hfirst, ih hrest]
  rw [hsame]

/-- Where no two objects differ, no order makes a difference if none does to each value alone. -/
theorem steady_of_oneObject (hone : OneObject (values.map (sample (room + 1))))
    (halone : ∀ value ∈ values, Steady (room + 1) [value]) : Steady (room + 1) values := by
  intro others hothers
  have hmem (shape : Shape) : shape ∈ others.map (sample (room + 1))
      ↔ shape ∈ values.map (sample (room + 1)) :=
    mem_samples_rearranged hothers fun value hvalue => steady_singleton_iff.mp (halone value hvalue)
  have hone' : OneObject (others.map (sample (room + 1))) := by
    simpa only [OneObject, hmem] using hone
  by_cases hnil : values = []
  · rw [List.eq_nil_of_length_eq_zero (hothers.length_eq.trans (by rw [hnil]; rfl)), hnil]
  · have hnil' : others ≠ [] := fun heq =>
      hnil (List.eq_nil_of_length_eq_zero (hothers.length_eq.symm.trans (by rw [heq]; rfl)))
    rw [sampleAll?_eq_oneOf hnil' hone', sampleAll?_eq_oneOf hnil hone, oneOf_congr hmem]

/-- **No order makes a difference to uniform values.** -/
theorem steady_of_uniform (h : Uniform room values) (hdistinct : ∀ value ∈ values, value.Distinct) :
    Steady room values := by
  induction h with
  | cut values => exact fun others hothers => sampleAll?_zero_congr hothers.length_eq
  | objects _ ih =>
      exact (steady_objects_iff hdistinct).mpr fun name => ih name (distinct_values hdistinct name)
  | @apart room values hone _ _ hitems halone =>
      refine steady_of_oneObject hone fun value hvalue => ?_
      have hvalueDistinct := hdistinct value hvalue
      cases value with
      | array items =>
          cases hvalueDistinct with
          | array hdistinct => exact steady_array_iff.mpr (hitems items hvalue hdistinct)
      | object members => exact halone members hvalue (List.forall_mem_singleton.mpr hvalueDistinct)
      | _ =>
          refine steady_singleton_iff.mpr fun other hother => ?_
          cases hother
          rfl

/-! ## What is steady is gathered -/

section Mixture

variable (hdistinct : ∀ value ∈ values, value.Distinct) (hother : ∃ value ∈ values, value.members? = none)

include hdistinct hother

theorem exists_apart_self (room : Nat) : ∃ others, Rearranged values others
    ∧ sampleAll? (room + 1) others = some (oneOf (values.map (sample (room + 1)))) := by
  simpa using exists_apart (f := id) room hother fun value hvalue => (hdistinct value hvalue).reordered_self

/-- The shape of each of them is that of one that has no other. If all that have this shape could have
another, there would be an order without it. -/
theorem exists_steady_alone (h : Steady (room + 1) values) {value : Json} (hvalue : value ∈ values) :
    ∃ other ∈ values, Steady (room + 1) [other] ∧ sample (room + 1) other = sample (room + 1) value := by
  have hchoice : ∀ other ∈ values, ∃ chosen, other.Reordered chosen
      ∧ (sample (room + 1) chosen = sample (room + 1) value →
        ∀ another, other.Reordered another → sample (room + 1) another = sample (room + 1) value) := by
    intro other hmem
    by_cases hcan : ∃ another, other.Reordered another ∧ sample (room + 1) another ≠ sample (room + 1) value
    · obtain ⟨another, hanother, hne⟩ := hcan
      exact ⟨another, hanother, fun heq => absurd heq hne⟩
    · refine ⟨other, (hdistinct other hmem).reordered_self, fun _ another hanother => ?_⟩
      exact not_not.mp fun hne => hcan ⟨another, hanother, hne⟩
  choose! f hf hstays using hchoice
  -- as they stand and with the chosen ones, they are given the same alternatives
  obtain ⟨_, hrearranged, hsample⟩ := exists_apart_self hdistinct hother room
  obtain ⟨_, hrearranged', hsample'⟩ := exists_apart room hother hf
  rw [h _ hrearranged] at hsample
  rw [h _ hrearranged', hsample, Option.some.injEq] at hsample'
  have hne := List.ne_nil_of_mem hvalue
  have hmem : sample (room + 1) value ∈ (values.map f).map (sample (room + 1)) := by
    rw [← mem_alternatives_oneOf_samples (by simpa using hne), ← hsample',
      mem_alternatives_oneOf_samples hne]
    exact List.mem_map_of_mem hvalue
  obtain ⟨_, hchosen, hsame⟩ := List.mem_map.mp hmem
  obtain ⟨other, hother, rfl⟩ := List.mem_map.mp hchosen
  have hstays := hstays other hother hsame
  have hself := hstays other (hdistinct other hother).reordered_self
  refine ⟨other, hother, steady_singleton_iff.mpr fun another hanother => ?_, hself⟩
  rw [hstays another hanother, hself]

/-- Each of the objects has the shape of all of them together: put in front they are merged, and behind a
value that is none they are not. -/
theorem sample_eq_sampleAll? (h : Steady (room + 1) values) {objects : List (Keyed Json)} {rest : List Json}
    (hperm : values.Perm (objects.map .object ++ rest)) (hrest : ∀ value ∈ rest, value.members? = none)
    {members : Keyed Json} (hmembers : members ∈ objects) :
    some (sample (room + 1) (.object members)) = sampleAll? (room + 1) (objects.map .object) := by
  have hmem : ∀ value ∈ objects.map Json.object, value ∈ values := fun value hvalue =>
    hperm.mem_iff.mpr (List.mem_append_left _ hvalue)
  have hobject := hmem _ (List.mem_map_of_mem hmembers)
  obtain ⟨fields, hfields, _⟩ := exists_sampleAll?_objects room (List.ne_nil_of_mem hmembers)
    (nodup_names fun value hvalue => hdistinct value (hmem value hvalue))
  have hfront := sampleAll?_append hfields fun value hvalue => hrest value (List.mem_of_mem_head? hvalue)
  obtain ⟨_, hrearranged, hsample⟩ := exists_apart_self hdistinct hother room
  rw [h _ hrearranged, ← h _ (rearranged_of_perm hdistinct hperm), hfront, Option.some.injEq] at hsample
  have hin : sample (room + 1) (.object members) ∈ (oneOf (values.map (sample (room + 1)))).alternatives :=
    (mem_alternatives_oneOf_samples (List.ne_nil_of_mem hobject)).mpr (List.mem_map_of_mem hobject)
  rw [← hsample, mem_alternatives_oneOf_known
    (List.forall_mem_cons.mpr ⟨known_sampleAll? hfields, known_samples room rest⟩)
    (List.cons_ne_nil _ _)] at hin
  obtain ⟨shape, hshape, hin⟩ := hin
  rcases List.mem_cons.mp hshape with rfl | hshape
  · rw [hfields, List.mem_singleton.mp hin]
  · -- the others are no objects
    obtain ⟨value, hvalue, rfl⟩ := List.mem_map.mp hshape
    rw [(isAlternative_sample room value).alternatives, List.mem_singleton] at hin
    have hnone := isObject_sample room value
    rw [← hin, hrest value hvalue] at hnone
    cases hnone

/-- The objects among them have one shape. -/
theorem oneObject_of_steady (h : Steady (room + 1) values) :
    OneObject (values.map (sample (room + 1))) := by
  obtain ⟨objects, rest, hperm, hrest⟩ := Json.exists_perm_objects values
  have hmerged : ∀ shape ∈ values.map (sample (room + 1)), shape.isObject = true →
      some shape = sampleAll? (room + 1) (objects.map .object) := by
    intro shape hshape hobject
    obtain ⟨value, hvalue, rfl⟩ := List.mem_map.mp hshape
    rcases List.mem_append.mp (hperm.mem_iff.mp hvalue) with hin | hin
    · obtain ⟨members, hmembers, rfl⟩ := List.mem_map.mp hin
      exact sample_eq_sampleAll? hdistinct hother h hperm hrest hmembers
    · rw [isObject_sample, hrest value hin] at hobject
      cases hobject
  intro first hfirst second hsecond hobject hobject'
  exact Option.some.inj ((hmerged first hfirst hobject).trans (hmerged second hsecond hobject').symm)

end Mixture

/-- **If no order makes a difference, the objects are gathered.** -/
theorem gathered_of_steady (hdistinct : ∀ value ∈ values, value.Distinct) (h : Steady room values) :
    Gathered ((sampleAll? room values).getD .any) := by
  induction room generalizing values with
  | zero =>
      rw [sampleAll?_zero]
      exact .any
  | succ room ih =>
      have hobjects (objects : List (Keyed Json))
          (hdistinct : ∀ value ∈ objects.map Json.object, value.Distinct)
          (h : Steady (room + 1) (objects.map .object)) :
          Gathered ((sampleAll? (room + 1) (objects.map .object)).getD .any) :=
        (gathered_objects_iff hdistinct).mpr fun name =>
          ih (distinct_values hdistinct name) ((steady_objects_iff hdistinct).mp h name)
      by_cases hother : ∃ value ∈ values, value.members? = none
      · -- each has the shape of a value that is steady alone
        have hne := List.ne_nil_of_mem hother.choose_spec.1
        have hone := oneObject_of_steady hdistinct hother h
        rw [sampleAll?_eq_oneOf hne hone, Option.getD_some, gathered_oneOf_samples hne]
        refine ⟨fun value hvalue => ?_, hone⟩
        obtain ⟨other, hmem, hsteady, heq⟩ := exists_steady_alone hdistinct hother h hvalue
        have hdistinct := hdistinct other hmem
        rw [← heq]
        cases other with
        | array items =>
            rw [sample_array]
            cases hdistinct with
            | array hitems => exact .array (ih hitems (steady_array_iff.mp hsteady))
        | object members => exact hobjects [members] (List.forall_mem_singleton.mpr hdistinct) hsteady
        | _ => exact .scalar _
      · have hmap := Json.eq_map_object fun value hvalue hnone => hother ⟨value, hvalue, hnone⟩
        rw [hmap] at hdistinct h ⊢
        exact hobjects _ hdistinct h

/-! ## What is gathered in every order is uniform -/

/-- What is in an array is gathered in every order if it is. -/
theorem alwaysGathered_items {items : List Json} (h : AlwaysGathered (room + 1) [.array items]) :
    AlwaysGathered room items := by
  intro others hothers
  have hgathered := alwaysGathered_singleton_iff.mp h _ hothers.array
  rw [sample_array] at hgathered
  cases hgathered with
  | array hitem => exact hitem

/-- What objects have under a name is gathered in every order if they are. -/
theorem alwaysGathered_values {objects : List (Keyed Json)}
    (hdistinct : ∀ value ∈ objects.map Json.object, value.Distinct)
    (h : AlwaysGathered (room + 1) (objects.map .object)) (name : String) :
    AlwaysGathered room (objects.filterMap (Keyed.get? name)) := by
  intro others hothers
  obtain ⟨objects', hobjects', rfl⟩ := hothers.exists_objects hdistinct
  exact (gathered_objects_iff (hobjects'.distinct hdistinct)).mp (h _ hobjects') name

/-- So is each of several values alone, if one of them is no object. -/
theorem alwaysGathered_alone (hdistinct : ∀ value ∈ values, value.Distinct)
    (hother : ∃ value ∈ values, value.members? = none) (h : AlwaysGathered (room + 1) values)
    {value : Json} (hvalue : value ∈ values) : AlwaysGathered (room + 1) [value] := by
  classical
  refine alwaysGathered_singleton_iff.mpr fun other hreordered => ?_
  have hf : ∀ another ∈ values, another.Reordered (if another = value then other else another) := by
    intro another hanother
    split
    · rename_i heq
      exact heq ▸ hreordered
    · exact (hdistinct another hanother).reordered_self
  obtain ⟨_, hrearranged, hsample⟩ := exists_apart room hother hf
  have hgathered := h _ hrearranged
  have hin := List.mem_map_of_mem (f := fun another => if another = value then other else another) hvalue
  rw [if_pos rfl] at hin
  rw [hsample, Option.getD_some, gathered_oneOf_samples (List.ne_nil_of_mem hin)] at hgathered
  exact hgathered.1 other hin

theorem oneObject_of_alwaysGathered (hdistinct : ∀ value ∈ values, value.Distinct)
    (hother : ∃ value ∈ values, value.members? = none) (h : AlwaysGathered (room + 1) values) :
    OneObject (values.map (sample (room + 1))) := by
  obtain ⟨_, hrearranged, hsample⟩ := exists_apart_self hdistinct hother room
  have hgathered := h _ hrearranged
  rw [hsample, Option.getD_some,
    gathered_oneOf_samples (List.ne_nil_of_mem hother.choose_spec.1)] at hgathered
  exact hgathered.2

/-- **If the objects are gathered in every order, the values are uniform.** -/
theorem uniform_of_alwaysGathered (hdistinct : ∀ value ∈ values, value.Distinct)
    (h : AlwaysGathered room values) : Uniform room values := by
  induction room generalizing values with
  | zero => exact .cut values
  | succ room ih =>
      have hobjects (objects : List (Keyed Json))
          (hdistinct : ∀ value ∈ objects.map Json.object, value.Distinct)
          (h : AlwaysGathered (room + 1) (objects.map .object)) :
          Uniform (room + 1) (objects.map .object) :=
        .objects fun name => ih (distinct_values hdistinct name) (alwaysGathered_values hdistinct h name)
      by_cases hother : ∃ value ∈ values, value.members? = none
      · have halone {value : Json} (hvalue : value ∈ values) := alwaysGathered_alone hdistinct hother h hvalue
        refine .apart (oneObject_of_alwaysGathered hdistinct hother h) ?_ ?_
        · intro items hitems
          cases hdistinct _ hitems with
          | array hdistinct => exact ih hdistinct (alwaysGathered_items (halone hitems))
        · intro members hmembers
          exact hobjects [members] (List.forall_mem_singleton.mpr (hdistinct _ hmembers)) (halone hmembers)
      · have hmap := Json.eq_map_object fun value hvalue hnone => hother ⟨value, hvalue, hnone⟩
        rw [hmap] at hdistinct h ⊢
        exact hobjects _ hdistinct h

/-! ## Samples in every order -/

theorem steady_iff_uniform (hdistinct : ∀ value ∈ values, value.Distinct) :
    Steady room values ↔ Uniform room values := by
  refine ⟨fun h => uniform_of_alwaysGathered hdistinct fun others hothers => ?_,
    fun h => steady_of_uniform h hdistinct⟩
  rw [h others hothers]
  exact gathered_of_steady hdistinct h

theorem alwaysGathered_iff_uniform (hdistinct : ∀ value ∈ values, value.Distinct) :
    AlwaysGathered room values ↔ Uniform room values := by
  refine ⟨uniform_of_alwaysGathered hdistinct, fun h others hothers => ?_⟩
  have hsteady := steady_of_uniform h hdistinct
  rw [hsteady others hothers]
  exact gathered_of_steady hdistinct hsteady

/--
**Exactly the uniform samples have one shape in every order of the items of their arrays**, and they are also
those in which, in every order, all objects that are given one shape together end up in one object.
-/
theorem ofSample_reordered {value : Json} (h : value.Distinct) :
    ((∀ other, value.Reordered other → ofSample other = ofSample value) ↔ Uniform maxDepth [value])
      ∧ ((∀ other, value.Reordered other → Gathered (ofSample other)) ↔ Uniform maxDepth [value]) := by
  have hdistinct : ∀ value' ∈ [value], value'.Distinct := List.forall_mem_singleton.mpr h
  constructor
  · rw [← steady_iff_uniform hdistinct, steady_singleton_iff]
    rfl
  · rw [← alwaysGathered_iff_uniform hdistinct, alwaysGathered_singleton_iff]
    rfl

/-- Two objects with different members, one of which is an array of other values. -/
theorem ofSample_reordered_objects :
    let value : Json := .array [.object [("a", .number (.integer 1))],
      .object [("b", .array [.null, .text "x"])]]
    value.Distinct ∧ ∀ other, value.Reordered other →
      ofSample other = .array (.object [("a", .number), ("b", .array (.union [.null, .text]))]) := by
  intro value
  have hdistinct : value.Distinct := by
    refine .array (forall_mem_pair (.object (by decide) ?_) (.object (by decide) ?_))
    · exact List.forall_mem_singleton.mpr (.number _)
    · exact List.forall_mem_singleton.mpr (.array (forall_mem_pair .null (.text _)))
  let objects : List (Keyed Json) := [[("a", .number (.integer 1))], [("b", .array [.null, .text "x"])]]
  have hfound (name : String) : ∀ found ∈ objects.filterMap (Keyed.get? name),
      found = .number (.integer 1) ∨ found = .array [.null, .text "x"] := by
    intro found h
    obtain ⟨members, hmembers, hget⟩ := List.mem_filterMap.mp h
    have hmember := Keyed.mem_of_get? hget
    rcases List.mem_pair.mp hmembers with rfl | rfl
    · exact .inl (congrArg Prod.snd (List.mem_singleton.mp hmember))
    · exact .inr (congrArg Prod.snd (List.mem_singleton.mp hmember))
  have hvalues (name : String) : Uniform (61 + 1) (objects.filterMap (Keyed.get? name)) := by
    refine uniform_of_no_objects 61 (fun found hin => ?_) fun items hin => ?_
    · rcases hfound name found hin with rfl | rfl <;> rfl
    · rcases hfound name _ hin with h | h
      · cases h
      · cases h
        exact uniform_of_no_objects 60 (forall_mem_pair rfl rfl) (by simp)
  have huniform : Uniform maxDepth [value] := by
    refine uniform_of_no_objects 63 (List.forall_mem_singleton.mpr rfl) fun items hitems => ?_
    obtain rfl := Json.array.inj (List.mem_singleton.mp hitems)
    exact Uniform.objects hvalues
  exact ⟨hdistinct, (ofSample_reordered hdistinct).1.mpr huniform⟩

/-- With `null` between them two objects stay apart, and in front of it they are merged. -/
theorem ofSample_depends_on_order :
    let first : Json := .object [("a", .number (.integer 1))]
    let second : Json := .object [("b", .number (.integer 2))]
    Json.Distinct (.array [first, .null, second])
      ∧ Json.Reordered (.array [first, .null, second]) (.array [first, second, .null])
      ∧ ofSample (.array [first, .null, second])
        = .array (.union [.null, .object [("a", .number)], .object [("b", .number)]])
      ∧ ofSample (.array [first, second, .null])
        = .array (.union [.null, .object [("a", .number), ("b", .number)]])
      ∧ ofSample (.array [first, second, .null]) ≠ ofSample (.array [first, .null, second]) := by
  intro first second
  have hfirst : first.Distinct := .object (by decide) (List.forall_mem_singleton.mpr (.number _))
  have hsecond : second.Distinct := .object (by decide) (List.forall_mem_singleton.mpr (.number _))
  have hitems : ∀ item ∈ [first, .null, second], item.Distinct :=
    List.forall_mem_cons.mpr ⟨hfirst, forall_mem_pair .null hsecond⟩
  exact ⟨.array hitems, (rearranged_of_perm hitems (.cons _ (.swap ..))).array, rfl, rfl, by decide⟩

end Shape

end DecisionGraph
