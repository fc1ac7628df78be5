import DecisionGraph.Shape.Basic
import Mathlib.Tactic.Tauto

/-!
# The order of shapes

`Shape.compare` is a linear order: turned around it gives the opposite (`compare_swap`), and it is transitive
(`compare_trans`). So the members of a set of shapes, which are inserted one by one, stand **in strictly
ascending order, each once** (`ascending_setOf`), and a shape is in the set exactly if it was inserted
(`mem_setOf`). There is one such list only (`Ascending.ext`).
-/

namespace DecisionGraph.Shape

/-- Shapes of different forms are compared by their forms. -/
theorem compare_of_rank_ne {a b : Shape} (h : a.rank ≠ b.rank) :
    compare a b = Ord.compare a.rank b.rank := by
  cases a <;> cases b <;> first | exact absurd rfl h | rfl

theorem rank_le_of_compare_lt {a b : Shape} (h : compare a b = .lt) : a.rank ≤ b.rank := by
  by_cases hrank : a.rank = b.rank
  · exact Nat.le_of_eq hrank
  · rw [compare_of_rank_ne hrank] at h
    exact Nat.le_of_lt (Nat.compare_eq_lt.mp h)

theorem compare_of_rank_lt {a b : Shape} (h : a.rank < b.rank) : compare a b = .lt := by
  rw [compare_of_rank_ne (Nat.ne_of_lt h), Nat.compare_eq_lt]
  exact h

mutual

theorem compare_swap : ∀ a b : Shape, (compare a b).swap = compare b a
  | .any, .any => rfl
  | .scalar _, .scalar _ => Std.OrientedOrd.eq_swap.symm
  | .array a, .array b => compare_swap a b
  | .object a, .object b => compareFields_swap a b
  | .union a, .union b => compareMembers_swap a b
  | .any, .scalar _ | .any, .array _ | .any, .object _ | .any, .union _
  | .scalar _, .any | .scalar _, .array _ | .scalar _, .object _ | .scalar _, .union _
  | .array _, .any | .array _, .scalar _ | .array _, .object _ | .array _, .union _
  | .object _, .any | .object _, .scalar _ | .object _, .array _ | .object _, .union _
  | .union _, .any | .union _, .scalar _ | .union _, .array _ | .union _, .object _ => rfl

theorem compareFields_swap : ∀ a b : List (String × Shape), (compareFields a b).swap = compareFields b a
  | [], [] => rfl
  | [], _ :: _ => rfl
  | _ :: _, [] => rfl
  | (name, a) :: as, (name', b) :: bs => by
    rw [compareFields, compareFields, Ordering.swap_then, Ordering.swap_then, compare_swap a b,
      compareFields_swap as bs, Std.OrientedOrd.eq_swap (a := name') (b := name)]

theorem compareMembers_swap : ∀ a b : List Shape, (compareMembers a b).swap = compareMembers b a
  | [], [] => rfl
  | [], _ :: _ => rfl
  | _ :: _, [] => rfl
  | a :: as, b :: bs => by
    rw [compareMembers, compareMembers, Ordering.swap_then, compare_swap a b, compareMembers_swap as bs]

end

theorem exists_scalar {a : Shape} (h : a.rank = 1) : ∃ kind, a = .scalar kind := by
  cases a <;> first | exact ⟨_, rfl⟩ | cases h

theorem exists_array {a : Shape} (h : a.rank = 2) : ∃ item, a = .array item := by
  cases a <;> first | exact ⟨_, rfl⟩ | cases h

theorem exists_object {a : Shape} (h : a.rank = 3) : ∃ fields, a = .object fields := by
  cases a <;> first | exact ⟨_, rfl⟩ | cases h

theorem exists_union {a : Shape} (h : a.rank = 4) : ∃ members, a = .union members := by
  cases a <;> first | exact ⟨_, rfl⟩ | cases h

/-- A chain of three shapes rises in form, or they are all of one form. -/
theorem lt_or_rank_eq {a b c : Shape} (h : compare a b = .lt) (h' : compare b c = .lt) :
    compare a c = .lt ∨ b.rank = a.rank ∧ c.rank = a.rank := by
  have hab := rank_le_of_compare_lt h
  have hbc := rank_le_of_compare_lt h'
  by_cases hac : a.rank < c.rank
  · exact .inl (compare_of_rank_lt hac)
  · exact .inr (by omega)

/-- Of two comparisons one after the other the second counts where the first finds no difference. -/
theorem then_lt_trans {ab bc ac rest rest' rest'' : Ordering}
    (hfirst : ab = .lt → bc = .lt → ac = .lt) (hleft : ab = .eq → ac = bc) (hright : bc = .eq → ac = ab)
    (hrest : rest = .lt → rest' = .lt → rest'' = .lt) (h : ab.then rest = .lt)
    (h' : bc.then rest' = .lt) : ac.then rest'' = .lt := by
  rw [Ordering.then_eq_lt] at *
  rcases h with h | ⟨h, hless⟩
  · rcases h' with h' | ⟨h', _⟩
    · exact .inl (hfirst h h')
    · exact .inl ((hright h').trans h)
  · rcases h' with h' | ⟨h', hless'⟩
    · exact .inl ((hleft h).trans h')
    · exact .inr ⟨(hleft h).trans h', hrest hless hless'⟩

mutual

theorem compare_trans : ∀ a b c : Shape, compare a b = .lt → compare b c = .lt → compare a c = .lt
  | .any, _, _, h, h' => by
    rcases lt_or_rank_eq h h' with hlt | ⟨hb, hc⟩
    · exact hlt
    · rename_i b c
      cases b <;> first | exact h' | cases hb
  | .scalar _, _, _, h, h' => by
    rcases lt_or_rank_eq h h' with hlt | ⟨hb, hc⟩
    · exact hlt
    · -- of one form, so it is what is in them that rises
      obtain ⟨_, rfl⟩ := exists_scalar hb
      obtain ⟨_, rfl⟩ := exists_scalar hc
      exact Nat.compare_eq_lt.mpr (Nat.lt_trans (Nat.compare_eq_lt.mp h) (Nat.compare_eq_lt.mp h'))
  | .array a, _, _, h, h' => by
    rcases lt_or_rank_eq h h' with hlt | ⟨hb, hc⟩
    · exact hlt
    · obtain ⟨b, rfl⟩ := exists_array hb
      obtain ⟨c, rfl⟩ := exists_array hc
      exact compare_trans a b c h h'
  | .object a, _, _, h, h' => by
    rcases lt_or_rank_eq h h' with hlt | ⟨hb, hc⟩
    · exact hlt
    · obtain ⟨b, rfl⟩ := exists_object hb
      obtain ⟨c, rfl⟩ := exists_object hc
      exact compareFields_trans a b c h h'
  | .union a, _, _, h, h' => by
    rcases lt_or_rank_eq h h' with hlt | ⟨hb, hc⟩
    · exact hlt
    · obtain ⟨b, rfl⟩ := exists_union hb
      obtain ⟨c, rfl⟩ := exists_union hc
      exact compareMembers_trans a b c h h'

theorem compareFields_trans : ∀ a b c : List (String × Shape), compareFields a b = .lt →
    compareFields b c = .lt → compareFields a c = .lt
  | [], _ :: _, _ :: _, _, _ => rfl
  | (name, a) :: as, (name', b) :: bs, (name'', c) :: cs, h, h' => by
    rw [compareFields] at *
    refine then_lt_trans (then_lt_trans (@Std.TransCmp.lt_trans _ _ _ name name' name'')
      (fun heq => ?_) (fun heq => ?_) (compare_trans a b c)) (fun heq => ?_) (fun heq => ?_)
      (compareFields_trans as bs cs) h h'
    · rw [compare_string_eq.mp heq]
    · rw [compare_string_eq.mp heq]
    · obtain ⟨hname, hshape⟩ := then_eq_eq.mp heq
      rw [compare_string_eq.mp hname, compare_eq_iff.mp hshape]
    · obtain ⟨hname, hshape⟩ := then_eq_eq.mp heq
      rw [compare_string_eq.mp hname, compare_eq_iff.mp hshape]

theorem compareMembers_trans : ∀ a b c : List Shape, compareMembers a b = .lt →
    compareMembers b c = .lt → compareMembers a c = .lt
  | [], _ :: _, _ :: _, _, _ => rfl
  | a :: as, b :: bs, c :: cs, h, h' => by
    rw [compareMembers] at *
    refine then_lt_trans (compare_trans a b c) (fun heq => ?_) (fun heq => ?_)
      (compareMembers_trans as bs cs) h h'
    · rw [compare_eq_iff.mp heq]
    · rw [compare_eq_iff.mp heq]

end

/-! ## Sets of shapes -/

/-- The shapes stand in strictly ascending order. -/
def Ascending (members : List Shape) : Prop := members.Pairwise fun a b => compare a b = .lt

theorem mem_insertMember {shape member : Shape} {members : List Shape} :
    member ∈ insertMember shape members ↔ member = shape ∨ member ∈ members := by
  induction members with
  | nil => simp [insertMember]
  | cons first rest ih =>
      rw [insertMember]
      split
      · simp
      · rename_i heq
        rw [compare_eq_iff.mp heq]
        simp
      · simp only [List.mem_cons, ih]
        tauto

theorem Ascending.insertMember {members : List Shape} (h : Ascending members) (shape : Shape) :
    Ascending (insertMember shape members) := by
  induction members with
  | nil => exact List.pairwise_singleton _ _
  | cons first rest ih =>
      obtain ⟨hfirst, hrest⟩ := List.pairwise_cons.mp h
      rw [Shape.insertMember]
      split
      · rename_i hlt
        -- in front of the first, and so in front of all that come after it
        refine List.pairwise_cons.mpr ⟨List.forall_mem_cons.mpr ⟨hlt, fun member hmember => ?_⟩, h⟩
        exact compare_trans _ _ _ hlt (hfirst member hmember)
      · exact h
      · rename_i hgt
        have hlt : compare first shape = .lt := by
          rw [← compare_swap, hgt]
          rfl
        refine List.pairwise_cons.mpr ⟨fun member hmember => ?_, ih hrest⟩
        rcases mem_insertMember.mp hmember with rfl | hold
        · exact hlt
        · exact hfirst member hold

theorem mem_foldl_insertMember {member : Shape} {shapes start : List Shape} :
    member ∈ shapes.foldl (fun set shape => insertMember shape set) start ↔
      member ∈ start ∨ member ∈ shapes := by
  induction shapes generalizing start with
  | nil => simp
  | cons shape rest ih =>
      rw [List.foldl_cons, ih, mem_insertMember, List.mem_cons]
      tauto

/-- **A set of shapes has the shapes that were put into it.** -/
theorem mem_setOf {member : Shape} {shapes : List Shape} : member ∈ setOf shapes ↔ member ∈ shapes := by
  rw [setOf, mem_foldl_insertMember]
  simp

/-- **Its shapes stand in strictly ascending order.** -/
theorem ascending_setOf (shapes : List Shape) : Ascending (setOf shapes) := by
  have hfold (start : List Shape) (h : Ascending start) :
      Ascending (shapes.foldl (fun set shape => insertMember shape set) start) := by
    induction shapes generalizing start with
    | nil => exact h
    | cons shape rest ih => exact ih _ (h.insertMember shape)
  exact hfold [] List.Pairwise.nil

/-- In an ascending list each shape stands once. -/
theorem Ascending.nodup {members : List Shape} (h : Ascending members) : members.Nodup := by
  refine List.Pairwise.imp ?_ h
  intro a b hlt heq
  rw [compare_eq_iff.mpr heq] at hlt
  cases hlt

/-- There is one way only to put shapes in order. -/
theorem Ascending.ext {first second : List Shape} (h : Ascending first) (h' : Ascending second)
    (hmem : ∀ member, member ∈ first ↔ member ∈ second) : first = second := by
  refine List.Perm.eq_of_pairwise ?_ h h' ((List.perm_ext_iff_of_nodup h.nodup h'.nodup).mpr hmem)
  intro a b _ _ hlt hgt
  rw [← compare_swap, hgt] at hlt
  cases hlt

/-- Lists of the same shapes make one set. -/
theorem setOf_congr {first second : List Shape} (h : ∀ member, member ∈ first ↔ member ∈ second) :
    setOf first = setOf second :=
  (ascending_setOf first).ext (ascending_setOf second) fun member => by rw [mem_setOf, mem_setOf, h]

end DecisionGraph.Shape
