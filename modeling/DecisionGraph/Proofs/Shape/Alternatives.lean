import DecisionGraph.Proofs.Shape.Normal

/-!
# Shapes as sets of alternatives

A normal shape is the union of its alternatives, and there is one normal shape only with these
(`Normal.ext`). Taking one of several normal shapes puts their alternatives together
(`mem_alternatives_oneOf`), unless one of them is `any`, which then stands for the whole. So an equation
between shapes that are made by `Shape.oneOf` is shown as one between sets.

The last section says what follows for `Shape.oneOf` itself: of several normal shapes nothing matters but the
set of their alternatives (`oneOf_eq_iff`), and so neither their order, nor how often they are given, nor which
of them have been put together before (`oneOf_regrouped`).
-/

namespace DecisionGraph.Shape

/-! ## A normal shape and its alternatives -/

theorem IsAlternative.alternatives {shape : Shape} (h : shape.IsAlternative) :
    shape.alternatives = [shape] := by
  cases shape <;> first | rfl | cases h

theorem Normal.ascending_alternatives {shape : Shape} (h : Normal shape) : Ascending shape.alternatives := by
  cases h with
  | union _ hascending _ _ => exact hascending
  | _ => exact List.pairwise_singleton _ _

/-- The shape with these alternatives. -/
def ofAlternatives : List Shape → Shape
  | [only] => only
  | members => .union members

theorem Normal.ofAlternatives_alternatives {shape : Shape} (h : Normal shape) :
    ofAlternatives shape.alternatives = shape := by
  cases h with
  | @union members hcount =>
      match members with
      | _ :: _ :: _ => rfl
  | _ => rfl

/-- **Normal shapes with the same alternatives are one shape.** -/
theorem Normal.ext {first second : Shape} (h : Normal first) (h' : Normal second)
    (hmem : ∀ member, member ∈ first.alternatives ↔ member ∈ second.alternatives) : first = second := by
  have heq := h.ascending_alternatives.ext h'.ascending_alternatives hmem
  rw [← h.ofAlternatives_alternatives, heq, h'.ofAlternatives_alternatives]

theorem Normal.exists_alternative {shape : Shape} (h : Normal shape) :
    ∃ member, member ∈ shape.alternatives := by
  cases h with
  | union hcount => exact List.exists_mem_of_length_pos (Nat.lt_of_lt_of_le Nat.zero_lt_two hcount)
  | _ => exact ⟨_, List.mem_singleton_self _⟩

theorem Normal.any_not_mem_alternatives {shape : Shape} (h : Normal shape) (hany : shape ≠ .any) :
    .any ∉ shape.alternatives :=
  fun hmem => (h.alternatives hany .any hmem).1

/-- A normal shape that has one alternative is that alternative. -/
theorem Normal.eq_of_alternatives {shape only : Shape} (h : Normal shape)
    (honly : ∀ part ∈ shape.alternatives, part = only) : shape = only := by
  by_cases hany : shape = .any
  · subst hany
    exact honly .any (List.mem_singleton_self _)
  · obtain ⟨first, hfirst⟩ := h.exists_alternative
    obtain rfl := honly first hfirst
    obtain ⟨halternative, hnormal⟩ := h.alternatives hany first hfirst
    refine h.ext hnormal fun part => ?_
    rw [halternative.alternatives, List.mem_singleton]
    exact ⟨honly part, fun heq => heq ▸ hfirst⟩

/-! ## One of several shapes -/

variable {shapes : List Shape}

theorem oneOf_of_any_mem (h : .any ∈ shapes) : oneOf shapes = .any := if_pos h

/-- It does not matter in which order the shapes are given, and how often. -/
theorem oneOf_congr {others : List Shape} (h : ∀ shape, shape ∈ shapes ↔ shape ∈ others) :
    oneOf shapes = oneOf others := by
  have hset : setOf (shapes.flatMap alternatives) = setOf (others.flatMap alternatives) := by
    refine setOf_congr fun member => ?_
    simp only [List.mem_flatMap, h]
  unfold oneOf
  simp only [h, hset]

/-- **The alternatives of one of several normal shapes are those of all of them.** -/
theorem mem_alternatives_oneOf (h : ∀ shape ∈ shapes, Normal shape) (hne : shapes ≠ [])
    (hany : .any ∉ shapes) {member : Shape} :
    member ∈ (oneOf shapes).alternatives ↔ ∃ shape ∈ shapes, member ∈ shape.alternatives := by
  have hparts : ∀ part ∈ shapes.flatMap alternatives, part.IsAlternative := by
    intro part hpart
    obtain ⟨shape, hshape, hin⟩ := List.mem_flatMap.mp hpart
    exact ((h shape hshape).alternatives (fun heq => hany (heq ▸ hshape)) part hin).1
  rw [← List.mem_flatMap]
  refine Iff.trans ?_ mem_setOf
  unfold oneOf
  rw [if_neg hany]
  split
  · -- there is a shape, and it has an alternative
    rename_i heq
    obtain ⟨shape, hshape⟩ := List.exists_mem_of_ne_nil shapes hne
    obtain ⟨part, hpart⟩ := (h shape hshape).exists_alternative
    have hmem := mem_setOf.mpr (List.mem_flatMap.mpr ⟨shape, hshape, hpart⟩)
    rw [heq] at hmem
    exact absurd hmem List.not_mem_nil
  · rename_i only heq
    have honly : only ∈ setOf (shapes.flatMap alternatives) := heq ▸ List.mem_singleton_self only
    rw [(hparts only (mem_setOf.mp honly)).alternatives, heq]
  · exact Iff.rfl

/-- Alternatives that are put together are the alternatives of the whole. -/
theorem mem_alternatives_oneOf_self (h : ∀ shape ∈ shapes, shape.IsAlternative ∧ Normal shape)
    (hne : shapes ≠ []) {member : Shape} : member ∈ (oneOf shapes).alternatives ↔ member ∈ shapes := by
  have hany : .any ∉ shapes := fun hmem => (h .any hmem).1
  rw [mem_alternatives_oneOf (fun shape hshape => (h shape hshape).2) hne hany]
  constructor
  · rintro ⟨shape, hshape, hin⟩
    rw [(h shape hshape).1.alternatives, List.mem_singleton] at hin
    exact hin ▸ hshape
  · intro hmem
    refine ⟨member, hmem, ?_⟩
    rw [(h member hmem).1.alternatives]
    exact List.mem_singleton_self _

/-- Nothing is known about one of several normal shapes exactly if nothing is known about one of them. -/
theorem oneOf_eq_any_iff (h : ∀ shape ∈ shapes, Normal shape) (hne : shapes ≠ []) :
    oneOf shapes = .any ↔ .any ∈ shapes := by
  refine ⟨fun heq => by_contra fun hany => ?_, oneOf_of_any_mem⟩
  have hmem : .any ∈ (oneOf shapes).alternatives := by
    rw [heq]
    exact List.mem_singleton_self _
  obtain ⟨shape, hshape, hin⟩ := (mem_alternatives_oneOf h hne hany).mp hmem
  exact (h shape hshape).any_not_mem_alternatives (fun heq => hany (heq ▸ hshape)) hin

theorem Normal.oneOf_singleton {shape : Shape} (h : Normal shape) : Shape.oneOf [shape] = shape := by
  by_cases hany : shape = .any
  · rw [hany]
    exact oneOf_of_any_mem (List.mem_singleton_self _)
  · have hnormal : ∀ part ∈ [shape], Normal part := List.forall_mem_singleton.mpr h
    refine (Normal.oneOf hnormal).ext h fun member => ?_
    rw [mem_alternatives_oneOf hnormal (List.cons_ne_nil _ _) (by simpa using Ne.symm hany)]
    simp

/-- **A normal shape is one of its alternatives.** -/
theorem Normal.oneOf_alternatives {shape : Shape} (h : Normal shape) :
    Shape.oneOf shape.alternatives = shape := by
  by_cases hany : shape = .any
  · rw [hany]
    exact oneOf_of_any_mem (List.mem_singleton_self _)
  · have hparts := h.alternatives hany
    obtain ⟨first, hfirst⟩ := h.exists_alternative
    refine (Normal.oneOf fun part hpart => (hparts part hpart).2).ext h fun member => ?_
    exact mem_alternatives_oneOf_self hparts (List.ne_nil_of_mem hfirst)

/-! ## Order, repetition and grouping -/

/-- The alternatives of some shapes, taken together. -/
def Offers (shapes : List Shape) (member : Shape) : Prop := ∃ shape ∈ shapes, member ∈ shape.alternatives

/-- Of normal shapes, only `any` itself offers `any`. -/
theorem offers_any_iff (h : ∀ shape ∈ shapes, Normal shape) : Offers shapes .any ↔ .any ∈ shapes := by
  constructor
  · rintro ⟨shape, hshape, hin⟩
    by_contra hany
    exact (h shape hshape).any_not_mem_alternatives (fun heq => hany (heq ▸ hshape)) hin
  · exact fun hany => ⟨.any, hany, List.mem_singleton_self _⟩

/-- **Of several normal shapes nothing but the set of their alternatives matters,** and if one of them is
`any`, not even that. -/
theorem oneOf_eq_iff {others : List Shape} (h : ∀ shape ∈ shapes, Normal shape) (hne : shapes ≠ [])
    (h' : ∀ shape ∈ others, Normal shape) (hne' : others ≠ []) :
    oneOf shapes = oneOf others ↔
      .any ∈ shapes ∧ .any ∈ others ∨ ∀ member, Offers shapes member ↔ Offers others member := by
  constructor
  · intro heq
    have hboth : .any ∈ shapes ↔ .any ∈ others := by
      rw [← oneOf_eq_any_iff h hne, heq, oneOf_eq_any_iff h' hne']
    by_cases hany : .any ∈ shapes
    · exact .inl ⟨hany, hboth.mp hany⟩
    · refine .inr fun member => ?_
      have hmem : member ∈ (oneOf shapes).alternatives ↔ Offers shapes member :=
        mem_alternatives_oneOf h hne hany
      rw [heq, mem_alternatives_oneOf h' hne' fun hin => hany (hboth.mpr hin)] at hmem
      exact hmem.symm
  · rintro (⟨hany, hany'⟩ | hmem)
    · rw [oneOf_of_any_mem hany, oneOf_of_any_mem hany']
    · have hboth : .any ∈ shapes ↔ .any ∈ others := by
        rw [← offers_any_iff h, hmem, offers_any_iff h']
      by_cases hany : .any ∈ shapes
      · rw [oneOf_of_any_mem hany, oneOf_of_any_mem (hboth.mp hany)]
      · refine (Normal.oneOf h).ext (Normal.oneOf h') fun member => ?_
        rw [mem_alternatives_oneOf h hne hany,
          mem_alternatives_oneOf h' hne' fun hin => hany (hboth.mpr hin)]
        exact hmem member

/-- Some of the shapes may be put together first. -/
theorem oneOf_oneOf_cons {part rest : List Shape} (h : ∀ shape ∈ part ++ rest, Normal shape)
    (hne : part ≠ []) : Shape.oneOf (Shape.oneOf part :: rest) = Shape.oneOf (part ++ rest) := by
  obtain ⟨hpart, hrest⟩ := List.forall_mem_append.mp h
  have hgrouped : ∀ shape ∈ Shape.oneOf part :: rest, Normal shape :=
    List.forall_mem_cons.mpr ⟨.oneOf hpart, hrest⟩
  refine (oneOf_eq_iff hgrouped (List.cons_ne_nil _ _) h (List.append_ne_nil_of_left_ne_nil hne _)).mpr ?_
  by_cases hany : .any ∈ part
  · -- the part is `any` as a whole, too
    refine .inl ⟨?_, List.mem_append_left _ hany⟩
    rw [oneOf_of_any_mem hany]
    exact List.mem_cons_self
  · refine .inr fun member => ?_
    simp only [Offers, List.exists_mem_cons_iff, mem_alternatives_oneOf hpart hne hany, List.mem_append,
      or_and_right, exists_or]

/--
**One of several normal shapes, however they are given.**

Of other normal shapes the one is the same exactly if they offer the same alternatives, or `any` is among both.
It stays the same if the shapes are given in another order and more than once, and if some of them, wherever they
stand, are replaced by what they come to when they are put together; the shapes are then normal as before.
-/
theorem oneOf_regrouped (h : ∀ shape ∈ shapes, Normal shape) (hne : shapes ≠ []) :
    (∀ others : List Shape, (∀ shape ∈ others, Normal shape) → others ≠ [] →
        (Shape.oneOf others = Shape.oneOf shapes ↔
          .any ∈ others ∧ .any ∈ shapes ∨ ∀ member, Offers others member ↔ Offers shapes member))
      ∧ (∀ others : List Shape, (∀ shape, shape ∈ others ↔ shape ∈ shapes) →
          Shape.oneOf others = Shape.oneOf shapes)
      ∧ ∀ part rest others : List Shape, part ≠ [] → shapes.Perm (part ++ rest) →
          others.Perm (Shape.oneOf part :: rest) →
          (∀ shape ∈ others, Normal shape) ∧ Shape.oneOf others = Shape.oneOf shapes := by
  refine ⟨fun others h' hne' => oneOf_eq_iff h' hne' h hne, fun others => oneOf_congr, ?_⟩
  intro part rest others hpart hsplit hothers
  have hnormal : ∀ shape ∈ part ++ rest, Normal shape := fun shape hin => h shape (hsplit.mem_iff.mpr hin)
  obtain ⟨hnormalPart, hnormalRest⟩ := List.forall_mem_append.mp hnormal
  constructor
  · intro shape hshape
    exact List.forall_mem_cons.mpr ⟨.oneOf hnormalPart, hnormalRest⟩ shape (hothers.mem_iff.mp hshape)
  · calc Shape.oneOf others = Shape.oneOf (Shape.oneOf part :: rest) := oneOf_congr fun _ => hothers.mem_iff
      _ = Shape.oneOf (part ++ rest) := oneOf_oneOf_cons hnormal hpart
      _ = Shape.oneOf shapes := oneOf_congr fun _ => hsplit.symm.mem_iff

/-- A number joins the union that it is in already, and leaves it as it was. -/
theorem oneOf_regrouped_absorbed :
    let choice : Shape := .union [.number, .text]
    (∀ shape ∈ [choice, .array .date, .number], Normal shape)
      ∧ Shape.oneOf [.array .date, Shape.oneOf [choice, .number]]
          = Shape.oneOf [choice, .array .date, .number]
      ∧ Shape.oneOf [choice, .array .date, .number] = .union [.number, .text, .array .date] := by
  intro choice
  have hnormal : ∀ shape ∈ [choice, .array .date, .number], Normal shape :=
    List.forall_mem_cons.mpr ⟨.scalars (by decide),
      List.forall_mem_cons.mpr ⟨.array (.scalar _), List.forall_mem_singleton.mpr (.scalar _)⟩⟩
  have hsplit : [choice, .array .date, .number].Perm ([choice, .number] ++ [.array .date]) :=
    (List.Perm.swap ..).cons choice
  have hothers : [.array .date, Shape.oneOf [choice, .number]].Perm
      (Shape.oneOf [choice, .number] :: [.array .date]) := List.Perm.swap ..
  obtain ⟨-, -, hgrouped⟩ := oneOf_regrouped hnormal (List.cons_ne_nil _ _)
  exact ⟨hnormal, (hgrouped _ _ _ (List.cons_ne_nil _ _) hsplit hothers).2, rfl⟩

end DecisionGraph.Shape
