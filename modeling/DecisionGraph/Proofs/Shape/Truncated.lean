import DecisionGraph.Proofs.Shape.Alternatives

/-!
# Cutting off is a projection

What is left of a shape down to a limit (`Shape.truncate_projects`)

1. is no deeper than the limit;
2. is all that counts for a lower limit, so of two limits the lower one decides;
3. is normal, whatever the shape was;
4. is the shape itself, if that is normal and does not reach the limit.

For the second, cutting off has to go through `Shape.oneOf`, which puts the members of a union together
anew: below the first limit members may have become equal, and with them the union may be gone. Above the
limit zero no shape but `any` becomes `any`, and what is left of an alternative is an alternative. So the
alternatives of what is left are what is left of the alternatives (`Normal.mem_alternatives_truncate`), in
either order.
-/

namespace DecisionGraph.Shape

theorem truncateFields_eq_map (limit : Nat) (fields : List (String × Shape)) :
    truncateFields limit fields = fields.map fun field => (field.1, truncate limit field.2) := by
  induction fields with
  | nil => rfl
  | cons field rest ih => rw [truncateFields, ih, List.map_cons]

theorem truncateMembers_eq_map (limit : Nat) (members : List Shape) :
    truncateMembers limit members = members.map (truncate limit) := by
  induction members with
  | nil => rfl
  | cons member rest ih => rw [truncateMembers, ih, List.map_cons]

@[simp] theorem truncate_zero (shape : Shape) : truncate 0 shape = .any := by cases shape <;> rfl

variable {shape : Shape} {limit : Nat}

/-! ## Above the limit zero -/

/-- What is left of an alternative is an alternative. -/
theorem IsAlternative.truncate (h : shape.IsAlternative) (limit : Nat) :
    (truncate (limit + 1) shape).IsAlternative := by
  cases shape <;> trivial

theorem truncate_union (limit : Nat) (members : List Shape) :
    truncate (limit + 1) (.union members) = oneOf (members.map (truncate (limit + 1))) := by
  rw [truncate, if_neg (Nat.succ_ne_zero limit), truncateMembers_eq_map]

theorem normal_truncated (shapes : List Shape) (limit : Nat) :
    ∀ shape ∈ shapes.map (truncate limit), Normal shape :=
  List.forall_mem_map.mpr fun shape _ => (normalWithin_truncate limit shape).normal

theorem truncated_ne_nil {members : List Shape} (hcount : 2 ≤ members.length) (limit : Nat) :
    members.map (truncate limit) ≠ [] := by
  rw [Ne, List.map_eq_nil_iff]
  rintro rfl
  cases hcount

/-- What is left of alternatives is not `any`. -/
theorem any_not_mem_truncated {members : List Shape} (h : ∀ member ∈ members, member.IsAlternative)
    (limit : Nat) : .any ∉ members.map (truncate (limit + 1)) := by
  intro hany
  obtain ⟨member, hmember, heq⟩ := List.mem_map.mp hany
  have halternative := (h member hmember).truncate limit
  rw [heq] at halternative
  exact halternative

theorem Normal.truncate_eq_any_iff (h : Normal shape) (limit : Nat) :
    truncate (limit + 1) shape = .any ↔ shape = .any := by
  cases h with
  | any => exact Iff.rfl
  | scalar | array | object => exact ⟨fun heq => (nomatch heq), fun heq => (nomatch heq)⟩
  | @union members hcount _ halternatives _ =>
      rw [truncate_union, oneOf_eq_any_iff (normal_truncated members _) (truncated_ne_nil hcount _)]
      exact ⟨fun hany => absurd hany (any_not_mem_truncated halternatives limit),
        fun heq => (nomatch heq)⟩

/-- **The alternatives of what is left are what is left of the alternatives.** -/
theorem Normal.mem_alternatives_truncate (h : Normal shape) (hany : shape ≠ .any) (limit : Nat)
    {member : Shape} : member ∈ (truncate (limit + 1) shape).alternatives ↔
      ∃ part ∈ shape.alternatives, member = truncate (limit + 1) part := by
  have hparts : ∀ part ∈ shape.alternatives, part.IsAlternative :=
    fun part hpart => (h.alternatives hany part hpart).1
  cases h with
  | any => exact absurd rfl hany
  | scalar | array | object => simp [truncate, Shape.alternatives]
  | @union members hcount _ halternatives _ =>
      rw [truncate_union, mem_alternatives_oneOf (normal_truncated members _) (truncated_ne_nil hcount _)
        (any_not_mem_truncated halternatives limit)]
      simp only [List.mem_map, exists_exists_and_eq_and]
      refine exists_congr fun part => and_congr_right fun hpart => ?_
      rw [((halternatives part hpart).truncate limit).alternatives, List.mem_singleton]

/-! ## One of several shapes -/

/-- **Cutting off goes through taking one of several normal shapes.** -/
theorem truncate_oneOf {shapes : List Shape} (h : ∀ shape ∈ shapes, Normal shape) (limit : Nat) :
    truncate (limit + 1) (oneOf shapes) = oneOf (shapes.map (truncate (limit + 1))) := by
  rcases eq_or_ne shapes [] with rfl | hne
  · rfl
  by_cases hany : .any ∈ shapes
  · rw [oneOf_of_any_mem hany, oneOf_of_any_mem (List.mem_map.mpr ⟨.any, hany, rfl⟩)]
    rfl
  have hnot (shape : Shape) (hshape : shape ∈ shapes) : shape ≠ .any := fun heq => hany (heq ▸ hshape)
  have hany' : .any ∉ shapes.map (truncate (limit + 1)) := by
    intro hmem
    obtain ⟨shape, hshape, heq⟩ := List.mem_map.mp hmem
    exact hnot shape hshape (((h shape hshape).truncate_eq_any_iff limit).mp heq)
  have hone : oneOf shapes ≠ .any := fun heq => hany ((oneOf_eq_any_iff h hne).mp heq)
  refine (normalWithin_truncate _ _).normal.ext (.oneOf (normal_truncated shapes _)) fun member => ?_
  calc member ∈ (truncate (limit + 1) (oneOf shapes)).alternatives
      ↔ ∃ shape ∈ shapes, ∃ part ∈ shape.alternatives, member = truncate (limit + 1) part := by
        rw [(Normal.oneOf h).mem_alternatives_truncate hone]
        simp only [mem_alternatives_oneOf h hne hany]
        exact ⟨fun ⟨part, ⟨shape, hshape, hpart⟩, heq⟩ => ⟨shape, hshape, part, hpart, heq⟩,
          fun ⟨shape, hshape, part, hpart, heq⟩ => ⟨part, ⟨shape, hshape, hpart⟩, heq⟩⟩
    _ ↔ member ∈ (oneOf (shapes.map (truncate (limit + 1)))).alternatives := by
        rw [mem_alternatives_oneOf (normal_truncated shapes _) (List.map_eq_nil_iff.not.mpr hne) hany']
        simp only [List.mem_map, exists_exists_and_eq_and]
        refine exists_congr fun shape => and_congr_right fun hshape => ?_
        exact ((h shape hshape).mem_alternatives_truncate (hnot shape hshape) limit).symm

/-! ## One limit after the other -/

mutual

/-- **Of two limits the lower one decides.** -/
theorem truncate_truncate : ∀ (outer inner : Nat) (shape : Shape),
    truncate outer (truncate inner shape) = truncate (min outer inner) shape
  | 0, _, _ => by rw [Nat.zero_min, truncate_zero, truncate_zero]
  | _ + 1, 0, _ => by rw [Nat.min_zero, truncate_zero]; rfl
  | outer + 1, inner + 1, shape => by
    rw [Nat.succ_min_succ]
    match shape with
    | .any | .scalar _ => rfl
    | .array item => exact congrArg Shape.array (truncate_truncate outer inner item)
    | .object fields => exact congrArg Shape.object (truncateFields_truncateFields outer inner fields)
    | .union members =>
        have hmembers := truncateMembers_truncateMembers (outer + 1) (inner + 1) members
        rw [Nat.succ_min_succ] at hmembers
        rw [truncate_union, truncate_oneOf (normal_truncated members _), ← truncateMembers_eq_map,
          ← truncateMembers_eq_map, hmembers, truncateMembers_eq_map, ← truncate_union]

theorem truncateFields_truncateFields : ∀ (outer inner : Nat) (fields : List (String × Shape)),
    truncateFields outer (truncateFields inner fields) = truncateFields (min outer inner) fields
  | _, _, [] => rfl
  | outer, inner, (name, shape) :: rest => by
    rw [truncateFields, truncateFields, truncate_truncate outer inner shape,
      truncateFields_truncateFields outer inner rest, truncateFields]

theorem truncateMembers_truncateMembers : ∀ (outer inner : Nat) (members : List Shape),
    truncateMembers outer (truncateMembers inner members) = truncateMembers (min outer inner) members
  | _, _, [] => rfl
  | outer, inner, member :: rest => by
    rw [truncateMembers, truncateMembers, truncate_truncate outer inner member,
      truncateMembers_truncateMembers outer inner rest, truncateMembers]

end

/-! ## Below the limit -/

/-- **Nothing is cut off from a normal shape that does not reach the limit.** -/
theorem Normal.truncate_of_depth_lt (h : Normal shape) (hdepth : shape.depth < limit) :
    truncate limit shape = shape := by
  induction h generalizing limit with
  | any => cases limit <;> rfl
  | scalar =>
      cases limit with
      | zero => cases hdepth
      | succ inner => rfl
  | array _ ih =>
      cases limit with
      | zero => cases hdepth
      | succ inner =>
          rw [depth] at hdepth
          exact congrArg Shape.array (ih (by omega))
  | @object fields _ ih =>
      cases limit with
      | zero => cases hdepth
      | succ inner =>
          rw [depth] at hdepth
          have hfields := depthOfFields_le_iff.mp (Nat.le_refl (depthOfFields fields))
          have hsame : ∀ field ∈ fields, (field.1, truncate inner field.2) = field := by
            intro field hfield
            have hle := hfields field hfield
            rw [ih field hfield (by omega)]
          have heq : truncateFields inner fields = fields := by
            rw [truncateFields_eq_map, List.map_congr_left hsame, List.map_id']
          exact congrArg Shape.object heq
  | @union members hcount hascending halternatives hmembers ih =>
      cases limit with
      | zero => cases hdepth
      | succ inner =>
          have hle := depthOfMembers_le_iff.mp (Nat.le_refl (depthOfMembers members))
          have hsame : ∀ member ∈ members, truncate (inner + 1) member = member :=
            fun member hmember => ih member hmember (Nat.lt_of_le_of_lt (hle member hmember) hdepth)
          rw [truncate_union, List.map_congr_left hsame, List.map_id']
          exact (Normal.union hcount hascending halternatives hmembers).oneOf_alternatives

/--
**Cutting off at a depth is a projection.**

What is left of a shape, whatever it is, is no deeper than the limit and normal; of two limits the lower one
decides; and a normal shape that does not reach the limit is left as it is.
-/
theorem truncate_projects (shape : Shape) (limit limit' : Nat) :
    (truncate limit shape).depth ≤ limit
      ∧ truncate limit (truncate limit' shape) = truncate (min limit limit') shape
      ∧ Normal (truncate limit shape)
      ∧ (Normal shape → shape.depth < limit → truncate limit shape = shape) :=
  ⟨(normalWithin_truncate limit shape).depth_le, truncate_truncate limit limit' shape,
    (normalWithin_truncate limit shape).normal, Normal.truncate_of_depth_lt⟩

/-- Two arrays of arrays are told apart three levels down, and are one array at the first. -/
theorem truncate_projects_arrays :
    let shape : Shape := .union [.array (.array .number), .array (.array .text)]
    Normal shape ∧ shape.depth < 3 ∧ truncate 3 shape = shape
      ∧ truncate 1 (truncate 3 shape) = .array .any := by
  intro shape
  have hnumbers : Normal (.array (.array .number)) := .array (.array (.scalar _))
  have htexts : Normal (.array (.array .text)) := .array (.array (.scalar _))
  have hnormal : Normal shape :=
    .union (by decide) (List.pairwise_pair.mpr rfl) (by simp [IsAlternative])
      (List.forall_mem_cons.mpr ⟨hnumbers, List.forall_mem_singleton.mpr htexts⟩)
  have hdepth : shape.depth < 3 := by decide
  obtain ⟨_, _, _, hsame⟩ := truncate_projects shape 3 3
  obtain ⟨_, hlower, _, _⟩ := truncate_projects shape 1 3
  exact ⟨hnormal, hdepth, hsame hnormal hdepth, hlower⟩

end DecisionGraph.Shape
