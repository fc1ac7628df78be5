import DecisionGraph.Proofs.Json.Distinct
import DecisionGraph.Proofs.Shape.Documents
import DecisionGraph.Proofs.Shape.Merged

/-!
# A sample has the shape that is made of it

A value that conforms to a shape conforms to every shape that covers it (`Shape.Covers.conforms`), so an
item of an array conforms to the shape that all items are merged into, as long as something is known of each
of them: `any` is left out of a merge, though every value conforms to it. It is the depth that keeps the two
cases apart. On one level all items have a shape that is not `any`, or, below the last level, none has.
-/

namespace DecisionGraph

/-- The value is one of those that the shape describes. -/
inductive Json.Conforms : Json → Shape → Prop
  | any (value : Json) : Conforms value .any
  | null : Conforms .null .null
  | boolean (value : Bool) : Conforms (.boolean value) .boolean
  | number (value : Number) : Conforms (.number value) .number
  | text (value : String) : Conforms (.text value) .text
  | array {items : List Json} {shape : Shape} (hitems : ∀ item ∈ items, Conforms item shape) :
      Conforms (.array items) (.array shape)
  | object {members : Keyed Json} {fields : Keyed Shape}
      (hnames : ∀ member ∈ members, member.1 ∈ Keyed.names fields)
      (hvalues : ∀ member ∈ members, ∀ shape, Keyed.get? member.1 fields = some shape →
        Conforms member.2 shape) : Conforms (.object members) (.object fields)
  | union {value : Json} {members : List Shape} {member : Shape} (hmember : member ∈ members)
      (h : Conforms value member) : Conforms value (.union members)

namespace Shape

open Json (Conforms)

variable {value : Json}

/-! ## Conforming to shapes that are put together -/

theorem conforms_iff_alternative {shape : Shape} :
    value.Conforms shape ↔ ∃ member ∈ shape.alternatives, value.Conforms member := by
  cases shape with
  | union members =>
      constructor
      · intro h
        cases h with
        | union hmember h => exact ⟨_, hmember, h⟩
      · exact fun ⟨_, hmember, h⟩ => .union hmember h
  | _ => simp [alternatives]

/-- **What conforms to a shape conforms to every shape that covers it.** -/
theorem Covers.conforms {cover shape : Shape} (h : Covers cover shape) (hvalue : value.Conforms shape) :
    value.Conforms cover := by
  induction h generalizing value with
  | any => exact .any value
  | alternatives h =>
      obtain ⟨member, hmember, hvalue⟩ := conforms_iff_alternative.mp hvalue
      exact conforms_iff_alternative.mpr ⟨member, h member hmember, hvalue⟩
  | object hnames _ ih =>
      cases hvalue with
      | object hmembers hvalues =>
          refine .object (fun member hmember => hnames _ (hmembers member hmember)) ?_
          intro member hmember cover hcover
          obtain ⟨shape, hshape⟩ := Option.isSome_iff_exists.mp (Keyed.mem_names.mp (hmembers member hmember))
          exact ih _ _ _ hcover hshape (hvalues member hmember shape hshape)

/-- What conforms to one of several shapes of which something is known conforms to what they are merged
into, one after the other. -/
theorem conforms_foldl_merge {first : Shape} {shapes : List Shape} (hfirst : Normal first ∧ first ≠ .any)
    (hshapes : ∀ shape ∈ shapes, Normal shape ∧ shape ≠ .any)
    (h : ∃ shape ∈ first :: shapes, value.Conforms shape) : value.Conforms (shapes.foldl merge first) := by
  induction shapes generalizing first with
  | nil =>
      obtain ⟨shape, hshape, hvalue⟩ := h
      exact List.mem_singleton.mp hshape ▸ hvalue
  | cons second rest ih =>
      obtain ⟨hsecond, hrest⟩ := List.forall_mem_cons.mp hshapes
      obtain ⟨hcovers, hcovers'⟩ := covers_merge hfirst.1 hsecond.1 hfirst.2 hsecond.2
      have hmerged := merge_ne_any hfirst.1 hsecond.1 hfirst.2 hsecond.2
      refine ih ⟨hfirst.1.merge hsecond.1, hmerged⟩ hrest ?_
      obtain ⟨shape, hshape, hvalue⟩ := h
      rcases List.mem_cons.mp hshape with rfl | hshape
      · exact ⟨_, List.mem_cons_self .., hcovers.conforms hvalue⟩
      rcases List.mem_cons.mp hshape with rfl | hshape
      · exact ⟨_, List.mem_cons_self .., hcovers'.conforms hvalue⟩
      · exact ⟨shape, List.mem_cons_of_mem _ hshape, hvalue⟩

/-! ## Samples -/

theorem sampleItems_eq_map (room : Nat) (items : List Json) :
    sampleItems room items = items.map (sample room) := by
  induction items with
  | nil => rfl
  | cons item rest ih => rw [sampleItems, ih, List.map_cons]

theorem sampleMembers_eq_mapValues (room : Nat) (members : Keyed Json) :
    sampleMembers room members = Keyed.mapValues (sample room) members := by
  induction members with
  | nil => rfl
  | cons member rest ih =>
      rw [sampleMembers, ih]
      rfl

/-- Below the last level nothing is known. -/
@[simp] theorem sample_zero (value : Json) : sample 0 value = .any := by cases value <;> rfl

/-- Above it something is known of every value. -/
theorem sample_ne_any (room : Nat) (value : Json) : sample (room + 1) value ≠ .any := by
  cases value <;> exact nofun

/-- The shape that is made of several values together, if there is one at all. -/
def sampleAll? (room : Nat) (values : List Json) : Option Shape := mergeAll? (values.map (sample room))

theorem sample_array (room : Nat) (items : List Json) :
    sample (room + 1) (.array items) = .array ((sampleAll? room items).getD .any) := by
  rw [sample, if_neg (Nat.succ_ne_zero room), sampleItems_eq_map]
  rfl

/-- The fields of the shape that is made of an object, each down to `room` levels. -/
def sampleFields (room : Nat) (members : Keyed Json) : Keyed Shape :=
  Keyed.ofList (Keyed.mapValues (sample room) members)

theorem sample_object (room : Nat) (members : Keyed Json) :
    sample (room + 1) (.object members) = .object (sampleFields room members) := by
  rw [sample, if_neg (Nat.succ_ne_zero room), sampleMembers_eq_mapValues]
  rfl

theorem ordered_sampleFields (room : Nat) (members : Keyed Json) :
    Keyed.Ordered (sampleFields room members) := Keyed.ordered_ofList _

/-- Under each name stands the shape of what stood there. -/
theorem get?_sampleFields {members : Keyed Json} (h : (Keyed.names members).Nodup) (room : Nat)
    (name : String) :
    Keyed.get? name (sampleFields room members) = (Keyed.get? name members).map (sample room) :=
  Keyed.get?_ofList_mapValues h _ name

theorem sampleAll?_zero (values : List Json) : (sampleAll? 0 values).getD .any = .any := by
  refine mergeAll?_getD (p := (· = .any)) rfl ?_ (List.forall_mem_map.mpr fun value _ => sample_zero value)
  rintro _ _ rfl rfl
  exact any_merge .any

/-- **Every item conforms to the shape that is made of all items together.** -/
theorem conforms_sampleAll? {room : Nat} {items : List Json}
    (h : ∀ item ∈ items, item.Conforms (sample room item)) :
    ∀ item ∈ items, item.Conforms ((sampleAll? room items).getD .any) := by
  intro item hitem
  cases room with
  | zero =>
      rw [sampleAll?_zero]
      exact .any item
  | succ room =>
      have hshapes : ∀ shape ∈ items.map (sample (room + 1)), Normal shape ∧ shape ≠ .any :=
        List.forall_mem_map.mpr fun item _ =>
          ⟨(normalWithin_sample (room + 1) item).normal, sample_ne_any room item⟩
      have hvalue : ∃ shape ∈ items.map (sample (room + 1)), item.Conforms shape :=
        ⟨_, List.mem_map_of_mem hitem, h item hitem⟩
      unfold sampleAll?
      generalize items.map (sample (room + 1)) = shapes at hshapes hvalue
      cases shapes with
      | nil =>
          obtain ⟨_, hshape, _⟩ := hvalue
          exact absurd hshape List.not_mem_nil
      | cons first rest =>
          obtain ⟨hfirst, hrest⟩ := List.forall_mem_cons.mp hshapes
          exact conforms_foldl_merge hfirst hrest hvalue

theorem conforms_sample (h : value.Distinct) (room : Nat) : value.Conforms (sample room value) := by
  induction h generalizing room with
  | null => cases room <;> first | exact .any _ | exact .null
  | boolean => cases room <;> first | exact .any _ | exact .boolean _
  | number => cases room <;> first | exact .any _ | exact .number _
  | text => cases room <;> first | exact .any _ | exact .text _
  | array _ ih =>
      cases room with
      | zero => exact .any _
      | succ room =>
          rw [sample_array]
          exact .array (conforms_sampleAll? fun item hitem => ih item hitem room)
  | @object members hnames _ ih =>
      cases room with
      | zero => exact .any _
      | succ room =>
          have hget {member : String × Json} (hmember : member ∈ members) :
              Keyed.get? member.1 (sampleFields room members) = some (sample room member.2) := by
            rw [get?_sampleFields hnames, Keyed.get?_of_mem hnames hmember, Option.map_some]
          rw [sample_object]
          refine .object (fun member hmember => ?_) fun member hmember shape hshape => ?_
          · rw [Keyed.mem_names, hget hmember]
            rfl
          · rw [hget hmember] at hshape
            exact Option.some.inj hshape ▸ ih member hmember room

/-- **A sample conforms to the shape that is made of it, and that is no deeper than shapes may be.** -/
theorem conforms_ofSample (h : value.Distinct) :
    value.Conforms (ofSample value) ∧ (ofSample value).depth ≤ maxDepth :=
  ⟨conforms_sample h maxDepth, (normalWithin_ofSample value).depth_le⟩

/-- Two objects with a number between them, and a field that is `null` in one and a text in the other. -/
theorem conforms_ofSample_objects :
    let value : Json := .array [.object [("a", .null)], .number (.integer 5),
      .object [("a", .text "x"), ("b", .array [])]]
    value.Distinct ∧ (ofSample value).depth ≤ maxDepth ∧ value.Conforms
      (.array (.union [.number, .object [("a", .null)], .object [("a", .text), ("b", .array .any)]])) := by
  intro value
  have hnull : Json.Distinct (.object [("a", .null)]) :=
    .object (by decide) (List.forall_mem_singleton.mpr .null)
  have htext : Json.Distinct (.object [("a", .text "x"), ("b", .array [])]) :=
    .object (by decide) (forall_mem_pair (.text _) (.array fun _ hitem => absurd hitem List.not_mem_nil))
  have hdistinct : value.Distinct :=
    .array (List.forall_mem_cons.mpr ⟨hnull, forall_mem_pair (.number _) htext⟩)
  obtain ⟨hconforms, hdepth⟩ := conforms_ofSample hdistinct
  exact ⟨hdistinct, hdepth, hconforms⟩

end Shape

end DecisionGraph
