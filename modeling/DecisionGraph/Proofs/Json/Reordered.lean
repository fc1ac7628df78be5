import DecisionGraph.Proofs.Json.Distinct
import Mathlib.Data.List.Forall2
import Mathlib.Data.List.Perm.Basic

/-!
# Values with the items of their arrays in another order

The items of an array can be put in another order, and so can those of the arrays inside
(`Json.Reordered`). Of several values that are taken together, each can be reordered in itself, and they can
change places (`Json.Rearranged`). Several objects can be rearranged so that what stands under one name
comes in any order that is wanted (`Json.Rearranged.exists_objects`), and every rearrangement of the objects
is one of the values under each name (`Json.Rearranged.of_objects`).
-/

namespace DecisionGraph.Json

/-- The second value is the first with the items of its arrays, at any depth, in another order. -/
inductive Reordered : Json → Json → Prop
  | null : Reordered .null .null
  | boolean (value : Bool) : Reordered (.boolean value) (.boolean value)
  | number (value : Number) : Reordered (.number value) (.number value)
  | text (value : String) : Reordered (.text value) (.text value)
  | array {items middle others : List Json} (hitems : List.Forall₂ Reordered items middle)
      (hperm : middle.Perm others) : Reordered (.array items) (.array others)
  | object {members others : Keyed Json} (hnames : Keyed.names members = Keyed.names others)
      (hvalues : ∀ name, Option.Rel Reordered (Keyed.get? name members) (Keyed.get? name others)) :
      Reordered (.object members) (.object others)

/-- The second values are the first in another order, each of them reordered in itself. -/
def Rearranged (values others : List Json) : Prop :=
  ∃ middle, List.Forall₂ Reordered values middle ∧ middle.Perm others

/-! ## One value -/

theorem exists_of_forall₂ {α β : Type} {R : α → β → Prop} {as : List α} {bs : List β}
    (h : List.Forall₂ R as bs) : ∀ b ∈ bs, ∃ a ∈ as, R a b := by
  induction h with
  | nil => exact fun _ hb => absurd hb List.not_mem_nil
  | cons hab _ ih =>
      refine List.forall_mem_cons.mpr ⟨⟨_, List.mem_cons_self .., hab⟩, fun b hb => ?_⟩
      obtain ⟨a, ha, hab⟩ := ih b hb
      exact ⟨a, List.mem_cons_of_mem _ ha, hab⟩

theorem Distinct.reordered_self {value : Json} (h : value.Distinct) : value.Reordered value := by
  induction h with
  | null => exact .null
  | boolean value => exact .boolean value
  | number value => exact .number value
  | text value => exact .text value
  | array _ ih => exact .array (List.forall₂_same.mpr ih) (.refl _)
  | @object members _ _ ih =>
      refine .object rfl fun name => ?_
      cases hvalue : Keyed.get? name members with
      | none => exact .none
      | some value => exact .some (ih _ (Keyed.mem_of_get? hvalue))

/-- A name that is given once is given once in another order as well. -/
theorem Reordered.distinct {value other : Json} (hreordered : value.Reordered other)
    (h : value.Distinct) : other.Distinct := by
  induction h generalizing other with
  | null => cases hreordered; exact .null
  | boolean => cases hreordered; exact .boolean _
  | number => cases hreordered; exact .number _
  | text => cases hreordered; exact .text _
  | array _ ih =>
      cases hreordered with
      | array hitems hperm =>
          refine .array fun item hitem => ?_
          obtain ⟨original, horiginal, hitem⟩ := exists_of_forall₂ hitems item (hperm.mem_iff.mpr hitem)
          exact ih original horiginal hitem
  | @object members hnodup _ ih =>
      cases hreordered with
      | object hnames hvalues =>
          rw [hnames] at hnodup
          refine .object hnodup fun member hmember => ?_
          have hget := hvalues member.1
          rw [Keyed.get?_of_mem hnodup hmember] at hget
          cases hvalue : Keyed.get? member.1 members with
          | none => rw [hvalue] at hget; cases hget
          | some value =>
              rw [hvalue] at hget
              cases hget with
              | some hvalue' => exact ih _ (Keyed.mem_of_get? hvalue) hvalue'

/-- Objects become objects, and nothing else does. -/
theorem Reordered.members?_eq_none_iff {value other : Json} (h : value.Reordered other) :
    other.members? = none ↔ value.members? = none := by
  cases h <;> simp [members?]

/-! ## Several values -/

variable {values others : List Json}

theorem Rearranged.array {items items' : List Json} (h : Rearranged items items') :
    (Json.array items).Reordered (.array items') := by
  obtain ⟨middle, hitems, hperm⟩ := h
  exact .array hitems hperm

theorem rearranged_of_perm (h : ∀ value ∈ values, value.Distinct) (hperm : values.Perm others) :
    Rearranged values others :=
  ⟨values, List.forall₂_same.mpr fun value hvalue => (h value hvalue).reordered_self, hperm⟩

theorem Rearranged.distinct (hrearranged : Rearranged values others)
    (h : ∀ value ∈ values, value.Distinct) : ∀ value ∈ others, value.Distinct := by
  intro other hother
  obtain ⟨middle, hvalues, hperm⟩ := hrearranged
  obtain ⟨value, hvalue, hreordered⟩ := exists_of_forall₂ hvalues other (hperm.mem_iff.mpr hother)
  exact hreordered.distinct (h value hvalue)

theorem Rearranged.length_eq (h : Rearranged values others) : others.length = values.length := by
  obtain ⟨middle, hvalues, hperm⟩ := h
  rw [hvalues.length_eq, hperm.length_eq]

theorem rearranged_singleton {value : Json} :
    Rearranged [value] others ↔ ∃ other, others = [other] ∧ value.Reordered other := by
  constructor
  · intro ⟨middle, hvalues, hperm⟩
    obtain ⟨other, rest, hreordered, hrest, rfl⟩ := List.forall₂_cons_left_iff.mp hvalues
    rw [List.forall₂_nil_left_iff] at hrest
    exact ⟨other, List.perm_singleton.mp (hrest ▸ hperm.symm), hreordered⟩
  · rintro ⟨other, rfl, hreordered⟩
    exact ⟨[other], .cons hreordered .nil, .refl _⟩

/-! ## Several objects -/

theorem eq_map_object (h : ∀ value ∈ values, value.members? ≠ none) :
    values = (values.filterMap members?).map .object := by
  induction values with
  | nil => rfl
  | cons value rest ih =>
      obtain ⟨hvalue, hrest⟩ := List.forall_mem_cons.mp h
      cases value with
      | object members =>
          have hcons : (Json.object members :: rest).filterMap members?
              = members :: rest.filterMap members? := rfl
          rw [hcons, List.map_cons, ← ih hrest]
      | _ => exact absurd rfl hvalue

/-- Values are brought in an order with the objects in front. -/
theorem exists_perm_objects (values : List Json) : ∃ (objects : List (Keyed Json)) (rest : List Json),
    values.Perm (objects.map .object ++ rest) ∧ ∀ value ∈ rest, value.members? = none := by
  induction values with
  | nil => exact ⟨[], [], .nil, fun _ hvalue => absurd hvalue List.not_mem_nil⟩
  | cons value values ih =>
      obtain ⟨objects, rest, hperm, hrest⟩ := ih
      cases hvalue : value.members? with
      | some members =>
          cases value with
          | object => exact ⟨_ :: objects, rest, hperm.cons _, hrest⟩
          | _ => cases hvalue
      | none =>
          exact ⟨objects, value :: rest, (hperm.cons value).trans List.perm_middle.symm,
            List.forall_mem_cons.mpr ⟨hvalue, hrest⟩⟩

section Objects

variable {objects : List (Keyed Json)}

/-- Objects in another order are objects, and the values under each name are in another order. -/
theorem Rearranged.of_objects (h : Rearranged (objects.map .object) others) :
    ∃ objects' : List (Keyed Json), others = objects'.map .object ∧ ∀ name,
      Rearranged (objects.filterMap (Keyed.get? name)) (objects'.filterMap (Keyed.get? name)) := by
  obtain ⟨middle, hvalues, hperm⟩ := h
  have hobjects : ∀ value ∈ middle, value.members? ≠ none := by
    intro value hvalue
    obtain ⟨original, horiginal, hreordered⟩ := exists_of_forall₂ hvalues value hvalue
    obtain ⟨members, _, rfl⟩ := List.mem_map.mp horiginal
    rw [Ne, hreordered.members?_eq_none_iff]
    exact Option.some_ne_none members
  refine ⟨others.filterMap members?, eq_map_object fun value hvalue =>
    hobjects value (hperm.mem_iff.mpr hvalue), fun name => ?_⟩
  refine ⟨(middle.filterMap members?).filterMap (Keyed.get? name), ?_,
    (hperm.filterMap members?).filterMap (Keyed.get? name)⟩
  -- name by name, what an object has there is reordered or missing in both
  rw [eq_map_object hobjects, List.forall₂_map_left_iff, List.forall₂_map_right_iff] at hvalues
  refine List.rel_filterMap ?_ hvalues
  intro members members' hreordered
  cases hreordered with
  | object _ hvalues => exact hvalues name

/-- A list is rearranged so that what is found in its elements comes in the order that is wanted. -/
theorem exists_perm_filterMap {α β : Type} {f : α → Option β} {found wanted : List β}
    (h : found.Perm wanted) {list : List α} (hlist : list.filterMap f = found) :
    ∃ others, list.Perm others ∧ others.filterMap f = wanted := by
  induction h generalizing list with
  | nil => exact ⟨list, .refl _, hlist⟩
  | @cons first _ _ _ ih =>
      obtain ⟨front, a, back, rfl, hfront, ha, hback⟩ := List.filterMap_eq_cons_iff.mp hlist
      obtain ⟨others, hperm, hothers⟩ := ih hback
      refine ⟨front ++ a :: others, (hperm.cons a).append_left front, ?_⟩
      rw [List.filterMap_append, List.filterMap_eq_nil_iff.mpr hfront, List.filterMap_cons, ha, hothers,
        List.nil_append]
  | swap first second rest =>
      obtain ⟨front, a, back, rfl, hfront, ha, hback⟩ := List.filterMap_eq_cons_iff.mp hlist
      obtain ⟨between, b, behind, rfl, hbetween, hb, hbehind⟩ := List.filterMap_eq_cons_iff.mp hback
      refine ⟨b :: a :: (front ++ (between ++ behind)), ?_, ?_⟩
      · refine List.perm_middle.trans ?_
        rw [← List.append_assoc]
        refine (List.perm_middle.cons a).trans (.trans (.swap ..) ?_)
        rw [List.append_assoc]
      · rw [List.filterMap_cons, hb, List.filterMap_cons, ha, List.filterMap_append,
          List.filterMap_append, List.filterMap_eq_nil_iff.mpr hfront,
          List.filterMap_eq_nil_iff.mpr hbetween, hbehind, List.nil_append, List.nil_append]
  | trans _ _ ih ih' =>
      obtain ⟨middle, hperm, hmiddle⟩ := ih hlist
      obtain ⟨others, hperm', hothers⟩ := ih' hmiddle
      exact ⟨others, hperm.trans hperm', hothers⟩

/-- What stands under a name is reordered, and the rest of the object stays. -/
theorem exists_reordered_object {members : Keyed Json} (h : (Json.object members).Distinct) {name : String}
    {value other : Json} (hvalue : Keyed.get? name members = some value) (hother : value.Reordered other) :
    ∃ members', (Json.object members).Reordered (.object members')
      ∧ Keyed.get? name members' = some other := by
  have hname : name ∈ Keyed.names members := Keyed.mem_names.mpr (by rw [hvalue]; rfl)
  obtain ⟨members', hnames, hget, hrest⟩ := Keyed.exists_replaced hname other
  refine ⟨members', .object hnames.symm fun key => ?_, hget⟩
  by_cases hkey : key = name
  · rw [hkey, hvalue, hget]
    exact .some hother
  · rw [hrest key hkey]
    cases h.reordered_self with
    | object _ hself => exact hself key

/-- What several objects have under a name is reordered, value by value. -/
theorem exists_reordered_objects (hdistinct : ∀ value ∈ objects.map Json.object, value.Distinct)
    {name : String} (h : List.Forall₂ Reordered (objects.filterMap (Keyed.get? name)) others) :
    ∃ objects' : List (Keyed Json), List.Forall₂ Reordered (objects.map .object) (objects'.map .object)
      ∧ objects'.filterMap (Keyed.get? name) = others := by
  induction objects generalizing others with
  | nil =>
      rw [List.filterMap_nil, List.forall₂_nil_left_iff] at h
      exact ⟨[], .nil, h.symm⟩
  | cons members rest ih =>
      obtain ⟨hmembers, hrest⟩ := List.forall_mem_cons.mp hdistinct
      rw [List.filterMap_cons] at h
      cases hvalue : Keyed.get? name members with
      | none =>
          rw [hvalue] at h
          obtain ⟨objects', hobjects', hget⟩ := ih hrest h
          refine ⟨members :: objects', .cons hmembers.reordered_self hobjects', ?_⟩
          rw [List.filterMap_cons, hvalue, hget]
      | some value =>
          rw [hvalue] at h
          obtain ⟨other, others, hother, hothers, rfl⟩ := List.forall₂_cons_left_iff.mp h
          obtain ⟨objects', hobjects', hget⟩ := ih hrest hothers
          obtain ⟨members', hmembers', hother⟩ := exists_reordered_object hmembers hvalue hother
          refine ⟨members' :: objects', .cons hmembers' hobjects', ?_⟩
          rw [List.filterMap_cons, hother, hget]

/-- **Objects are rearranged so that the values under one name come in the order that is wanted.** -/
theorem Rearranged.exists_objects (hdistinct : ∀ value ∈ objects.map Json.object, value.Distinct)
    {name : String} (h : Rearranged (objects.filterMap (Keyed.get? name)) others) :
    ∃ objects' : List (Keyed Json), Rearranged (objects.map .object) (objects'.map .object)
      ∧ objects'.filterMap (Keyed.get? name) = others := by
  obtain ⟨middle, hvalues, hperm⟩ := h
  obtain ⟨between, hbetween, hget⟩ := exists_reordered_objects hdistinct hvalues
  obtain ⟨objects', hobjects', hothers⟩ := exists_perm_filterMap hperm hget
  exact ⟨objects', ⟨_, hbetween, hobjects'.map _⟩, hothers⟩

theorem distinct_values (h : ∀ value ∈ objects.map Json.object, value.Distinct) (name : String) :
    ∀ value ∈ objects.filterMap (Keyed.get? name), value.Distinct := by
  intro value hvalue
  obtain ⟨members, hmembers, hget⟩ := List.mem_filterMap.mp hvalue
  cases h _ (List.mem_map_of_mem hmembers) with
  | object _ hdistinct => exact hdistinct _ (Keyed.mem_of_get? hget)

theorem nodup_names (h : ∀ value ∈ objects.map Json.object, value.Distinct) :
    ∀ members ∈ objects, (Keyed.names members).Nodup := by
  intro members hmembers
  cases h _ (List.mem_map_of_mem hmembers) with
  | object hnames _ => exact hnames

end Objects

end DecisionGraph.Json
