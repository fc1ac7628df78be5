import DecisionGraph.Proofs.Shape.Alternatives
import DecisionGraph.Proofs.Shape.Inferred

/-!
# What `??` leaves of its left side

`l ?? r` is one of the values of `l` other than `null`, or else a value of `r`. On shapes, `null` is taken out
of the members of a union (`Shape.Normal.mem_alternatives_nonNull`), so that it is in the result only if it is
in the right side. A left side that is nothing but `null` has no members, and there `null` stays, although no
value of it can come out (`Expr.typeIn_coalesce`).
-/

namespace DecisionGraph

namespace Shape

/-- The shape is `null`, or a union with `null` in it. -/
def HoldsNull (shape : Shape) : Prop := shape = .null ∨ ∃ members, shape = .union members ∧ .null ∈ members

theorem holdsNull_iff {shape : Shape} : shape.HoldsNull ↔ .null ∈ shape.alternatives := by
  cases shape <;> simp [HoldsNull, alternatives, eq_comm]

theorem not_holdsNull_any : ¬Shape.any.HoldsNull := by simp [HoldsNull]

section NonNull

variable {shape part : Shape}

/-- **Outside of `null` itself, `null` is taken out of the alternatives.** -/
theorem Normal.mem_alternatives_nonNull (h : Normal shape) (hnull : shape ≠ .null) :
    part ∈ shape.nonNull.alternatives ↔ part ∈ shape.alternatives ∧ part ≠ .null := by
  cases h with
  | @union members hcount hascending halternatives hmembers =>
      have hkept : ∀ member ∈ members.filter (· ≠ .null), member.IsAlternative ∧ Normal member :=
        fun member hmember =>
          have hmember := List.mem_of_mem_filter hmember
          ⟨halternatives member hmember, hmembers member hmember⟩
      -- a union of nothing but `null` is not normal
      have hne : members.filter (· ≠ .null) ≠ [] := by
        intro hempty
        rw [List.filter_eq_nil_iff] at hempty
        have hnormal : Normal (.union members) := .union hcount hascending halternatives hmembers
        exact hnull (hnormal.eq_of_alternatives fun member hmember => by simpa using hempty member hmember)
      rw [Shape.nonNull, mem_alternatives_oneOf_self hkept hne, List.mem_filter, decide_eq_true_iff]
      rfl
  | any | scalar | array | object =>
      refine (and_iff_left_of_imp fun hpart => ?_).symm
      rwa [List.mem_singleton.mp hpart]

theorem Normal.nonNull_ne_any (h : Normal shape) (hany : shape ≠ .any) : shape.nonNull ≠ .any := by
  by_cases hnull : shape = .null
  · subst hnull
    nofun
  · intro heq
    have hpart : .any ∈ shape.nonNull.alternatives := by
      rw [heq]
      exact List.mem_singleton_self _
    exact h.any_not_mem_alternatives hany ((h.mem_alternatives_nonNull hnull).mp hpart).1

/-- What can come out is what is left of the left side, and the right side. -/
theorem mem_alternatives_coalesce {left right : Shape} (hleft : Normal left) (hright : Normal right)
    (hany : left ≠ .any) (hany' : right ≠ .any) :
    part ∈ (oneOf [left.nonNull, right]).alternatives ↔
      part ∈ left.nonNull.alternatives ∨ part ∈ right.alternatives := by
  have hnormal : ∀ shape ∈ [left.nonNull, right], Normal shape :=
    List.forall_mem_cons.mpr ⟨hleft.nonNull, List.forall_mem_singleton.mpr hright⟩
  have hout : .any ∉ [left.nonNull, right] := by
    simp [(hleft.nonNull_ne_any hany).symm, hany'.symm]
  rw [mem_alternatives_oneOf hnormal (List.cons_ne_nil _ _) hout]
  simp

end NonNull

end Shape

open Shape

/-- **When `null` is in what `??` makes.** It is there if it is in the right side, as long as something is
known about the left one; and besides, if the left side is nothing but `null` and something is known about
the right one. So outside of a left side that is `null`, it comes from the right side only. -/
theorem Expr.typeIn_coalesce {root item left right : Shape} (hroot : Normal root) (hitem : Normal item)
    {l r : Expr} (hl : l.typeIn root item = .ok left) (hr : r.typeIn root item = .ok right) :
    ∃ shape, (Expr.binary .coalesce l r).typeIn root item = .ok shape
      ∧ (shape.HoldsNull ↔ right.HoldsNull ∧ left ≠ .any ∨ left = .null ∧ right ≠ .any) := by
  have hleft : Normal left := l.normal_typeIn hroot hitem left hl
  have hright : Normal right := r.normal_typeIn hroot hitem right hr
  have hshape : (Expr.binary .coalesce l r).typeIn root item = .ok (.oneOf [left.nonNull, right]) := by
    rw [typeIn, hl, hr]
    rfl
  refine ⟨_, hshape, ?_⟩
  by_cases hany : left = .any ∨ right = .any
  · -- nothing is known about the result
    have hmem : .any ∈ [left.nonNull, right] := by
      rcases hany with rfl | rfl
      · exact List.mem_cons_self ..
      · exact List.mem_cons_of_mem _ (List.mem_singleton_self _)
    rw [oneOf_of_any_mem hmem]
    refine iff_of_false not_holdsNull_any ?_
    rintro (⟨hnull, hne⟩ | ⟨rfl, hne⟩)
    · exact not_holdsNull_any (hany.resolve_left hne ▸ hnull)
    · exact hne (hany.resolve_left nofun)
  · obtain ⟨hany, hany'⟩ := not_or.mp hany
    rw [holdsNull_iff, holdsNull_iff, mem_alternatives_coalesce hleft hright hany hany', and_iff_left hany,
      and_iff_left hany', or_comm]
    refine or_congr_right ?_
    by_cases hnull : left = .null
    · subst hnull
      exact iff_of_true (List.mem_singleton_self _) rfl
    · rw [hleft.mem_alternatives_nonNull hnull]
      exact iff_of_false (fun h => h.2 rfl) hnull

/-- `null` is taken out of a union on the left, and what else is in it is kept. -/
theorem Expr.typeIn_coalesce_union :
    let root : Shape := .object [("discount", .union [.null, .number])]
    let expr : Expr := .binary .coalesce (.identifier "discount") (.literal (.text "none"))
    expr.typeIn root .any = .ok (.union [.number, .text]) ∧ ¬Shape.HoldsNull (.union [.number, .text]) := by
  intro root expr
  have hunion : Normal (.union [.null, .number]) := .scalars (by decide)
  have hroot : Normal root := .object (List.forall_mem_singleton.mpr hunion)
  have hleft : (Expr.identifier "discount").typeIn root .any = .ok (.union [.null, .number]) := by rfl
  have hright : (Expr.literal (.text "none")).typeIn root .any = .ok .text := rfl
  obtain ⟨shape, hshape, hnull⟩ := typeIn_coalesce hroot .any hleft hright
  have hexpr : expr.typeIn root .any = .ok (.union [.number, .text]) := by rfl
  obtain rfl := Except.ok.inj (hshape.symm.trans hexpr)
  refine ⟨hexpr, fun hholds => ?_⟩
  simpa [HoldsNull] using hnull.mp hholds

/-- A field that is `null` in all samples is `null` behind `??`, too, although the right side never is. -/
theorem Expr.coalesce_keeps_null :
    let root : Shape := .object [("discount", .null)]
    let l : Expr := .identifier "discount"
    let r : Expr := .literal (.number (.ofDecimal 0 0))
    Normal root ∧ l.typeIn root .any = .ok .null ∧ r.typeIn root .any = .ok .number
      ∧ (Expr.binary .coalesce l r).typeIn root .any = .ok (.union [.null, .number])
      ∧ Shape.HoldsNull (.union [.null, .number]) ∧ ¬Shape.HoldsNull .number := by
  intro root l r
  have hroot : Normal root := .object (List.forall_mem_singleton.mpr (.scalar .null))
  have hshape : (Expr.binary .coalesce l r).typeIn root .any = .ok (.union [.null, .number]) := by rfl
  exact ⟨hroot, by rfl, by rfl, hshape, by simp [HoldsNull], by simp [HoldsNull]⟩

end DecisionGraph
