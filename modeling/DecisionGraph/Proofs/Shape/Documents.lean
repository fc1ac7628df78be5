import DecisionGraph.Proofs.Shape.Normal
import DecisionGraph.Shape.Sample
import DecisionGraph.Shape.Schema

/-!
# The shapes that documents give

The shape of a sample value and the shape that a schema describes are normal, and **no document nests them
deeper than `Shape.maxDepth`** (`normalWithin_ofSample`, `normalWithin_ofSchema`). Both readers go down a
level with every array and object, and give `any` below the last one. Alternatives of a schema stand at the
depth of the schema itself, but they cost a level, too.
-/

namespace DecisionGraph.Shape

/-! ## Samples -/

/-- A scalar, where there is a level left for it. -/
theorem normalWithin_leaf (room : Nat) (kind : Scalar) :
    NormalWithin room (if room = 0 then .any else .scalar kind) := by
  split
  · exact normalWithin_any
  · exact normalWithin_scalar kind

mutual

theorem normalWithin_sample (room : Nat) : ∀ value : Json, NormalWithin room (sample room value)
  | .null => normalWithin_leaf room .null
  | .boolean _ => normalWithin_leaf room .boolean
  | .number _ => normalWithin_leaf room .number
  | .text _ => normalWithin_leaf room .text
  | .array items => by
    cases room with
    | zero => exact normalWithin_any
    | succ room =>
        have hitems := normalWithin_sampleItems room items
        exact (mergeAll?_getD normalWithin_any (fun _ _ h h' => h.merge h') hitems).array
  | .object members => by
    cases room with
    | zero => exact normalWithin_any
    | succ room =>
        have hmembers := normalWithin_sampleMembers room members
        exact .object fun field hfield => hmembers field (Keyed.mem_of_mem_ofList hfield)

theorem normalWithin_sampleItems (room : Nat) :
    ∀ items : List Json, ∀ shape ∈ sampleItems room items, NormalWithin room shape
  | [] => fun _ hshape => absurd hshape List.not_mem_nil
  | item :: rest =>
    List.forall_mem_cons.mpr ⟨normalWithin_sample room item, normalWithin_sampleItems room rest⟩

theorem normalWithin_sampleMembers (room : Nat) :
    ∀ members : List (String × Json), ∀ field ∈ sampleMembers room members, NormalWithin room field.2
  | [] => fun _ hfield => absurd hfield List.not_mem_nil
  | (_, value) :: rest =>
    List.forall_mem_cons.mpr ⟨normalWithin_sample room value, normalWithin_sampleMembers room rest⟩

end

/-- **The shape of a sample value is normal, and no deeper than shapes may be.** -/
theorem normalWithin_ofSample (value : Json) : NormalWithin maxDepth (ofSample value) :=
  normalWithin_sample maxDepth value

/-! ## Schemas -/

theorem normalWithin_ofTypeName {limit : Nat} {describe : Json → Shape}
    (hdescribe : ∀ document, NormalWithin limit (describe document)) (schema : Keyed Json) (name : String) :
    NormalWithin (limit + 1) (ofTypeName describe schema name) := by
  unfold ofTypeName
  split
  · refine .object fun field hfield => ?_
    obtain ⟨entry, _, rfl⟩ := List.mem_map.mp (Keyed.mem_of_mem_ofList hfield)
    exact hdescribe entry.2
  split
  · refine .array ?_
    cases Keyed.get? "items" schema with
    | none => exact normalWithin_any
    | some document => exact hdescribe document
  split
  · split
    · split
      · exact normalWithin_scalar .date
      · exact normalWithin_scalar .text
    · exact normalWithin_scalar .text
  split
  · exact normalWithin_scalar .number
  split
  · exact normalWithin_scalar .boolean
  split
  · exact normalWithin_scalar .null
  · exact normalWithin_any

theorem normalWithin_schema (room : Nat) (document : Json) : NormalWithin room (schema room document) := by
  induction room generalizing document with
  | zero => exact normalWithin_any
  | succ room ih =>
      rw [schema]
      split
      · exact normalWithin_any
      · split
        · -- one of several schemas, which are described a level deeper
          exact (NormalWithin.oneOf (List.forall_mem_map.mpr fun variant _ => ih variant)).mono
            (Nat.le_succ room)
        · exact normalWithin_ofTypeName ih _ _
        · exact .oneOf (List.forall_mem_map.mpr fun name _ => normalWithin_ofTypeName ih _ name)
        · split
          · exact normalWithin_ofTypeName ih _ _
          split
          · exact normalWithin_ofTypeName ih _ _
          · exact normalWithin_any

/-- **The shape that a schema describes is normal, and no deeper than shapes may be.** -/
theorem normalWithin_ofSchema (document : Json) : NormalWithin maxDepth (ofSchema document) :=
  normalWithin_schema maxDepth document

end DecisionGraph.Shape
