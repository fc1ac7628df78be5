import DecisionGraph.Proofs.Keyed
import DecisionGraph.Registry

/-!
# What registries hold

A registry is put together from the known kinds, further names for them, and behaviors from outside.
What holds of the known kinds and of every behavior from outside holds of every behavior that the
registry knows (`Composed.forall`): properties of propagation that rest on the behaviors are stated
for `Registry.Composed`, with what they ask of the behaviors from outside.

Two tags count as one kind if what they stand for goes by one kind. That is one behavior, unless a known
kind has lost its tag to a behavior from outside and goes on under its other names
(`Composed.equates_iff`).
-/

namespace DecisionGraph

theorem Kind.eq_of_tag {kind other : Kind} (h : kind.tag = other.tag) : kind = other := by
  cases kind <;> cases other <;> first | rfl | exact absurd h (by decide)

theorem Behavior.kind_ofKind (kind : Kind) : (ofKind kind).kind = kind.tag := by
  cases kind <;> rfl

namespace Registry

/-- The registries that can be made with behaviors from outside that are `allowed`. -/
inductive Composed (allowed : Behavior → Prop) : Registry → Prop where
  /-- The known kinds under their names. -/
  | builtin : Composed allowed builtin
  /-- One more name for a known kind. -/
  | addAlias {registry : Registry} (tag name : String) :
      Composed allowed registry → Composed allowed (registry.addAlias tag name)
  /-- One more behavior, in place of what stood under its kind. -/
  | add {registry : Registry} {behavior : Behavior} :
      Composed allowed registry → allowed behavior → Composed allowed (registry.add behavior)

/-- **Among the known kinds a tag stands for the kind that has it as a name.** -/
theorem get?_builtin_eq (tag : String) :
    builtin.get? tag = (Kind.ofName? tag).map Behavior.ofKind := by
  have hdistinct : ((Kind.all.flatMap fun kind =>
      kind.names.map fun name => (name, Behavior.ofKind kind)).map Prod.fst).Nodup := by
    have hnames : ((Kind.all.flatMap fun kind =>
        kind.names.map fun name => (name, Behavior.ofKind kind)).map Prod.fst)
          = Kind.all.flatMap Kind.names := rfl
    rw [hnames]
    decide
  cases hname : Kind.ofName? tag with
  | none =>
      rw [Option.map_none, Option.eq_none_iff_forall_ne_some]
      intro behavior hget
      -- a tag that is registered is the name of some kind
      obtain ⟨kind, hkind, hnames⟩ := List.mem_flatMap.mp (Keyed.mem_of_get?_ofList hget)
      obtain ⟨name, hmem, heq⟩ := List.mem_map.mp hnames
      obtain ⟨rfl, -⟩ := Prod.mk.inj heq
      have hnot := List.find?_eq_none.mp hname kind hkind
      exact hnot (decide_eq_true hmem)
  | some kind =>
      refine Keyed.get?_ofList_of_mem hdistinct ?_
      have hmem : tag ∈ kind.names := by
        have hfound := List.find?_some hname
        exact of_decide_eq_true hfound
      refine List.mem_flatMap.mpr ⟨kind, List.mem_of_find?_eq_some hname, ?_⟩
      exact List.mem_map.mpr ⟨tag, hmem, rfl⟩

theorem get?_builtin {tag : String} {behavior : Behavior} (h : builtin.get? tag = some behavior) :
    ∃ kind, behavior = .ofKind kind := by
  rw [get?_builtin_eq] at h
  obtain ⟨kind, _, heq⟩ := Option.map_eq_some_iff.mp h
  exact ⟨kind, heq.symm⟩

theorem equates_self (registry : Registry) (kind : String) : registry.equates kind kind = true := by
  simp [equates]

/-- A tag stands for what was registered under it last. -/
theorem get?_register (registry : Registry) (tag kind : String) (behavior : Behavior) :
    (registry.register kind behavior).get? tag
      = if kind = tag then some behavior else registry.get? tag :=
  Keyed.get?_insert ..

/-- **What holds of the known kinds under all tags, and of what is allowed under its own kind, holds of all
that a registry knows.** -/
theorem Composed.forall_tag {allowed : Behavior → Prop} {P : String → Behavior → Prop}
    {registry : Registry} (h : registry.Composed allowed) (hknown : ∀ tag kind, P tag (.ofKind kind))
    (hallowed : ∀ behavior, allowed behavior → P behavior.kind behavior) {tag : String}
    {behavior : Behavior} (hget : registry.get? tag = some behavior) : P tag behavior := by
  induction h with
  | builtin =>
      obtain ⟨kind, rfl⟩ := get?_builtin hget
      exact hknown tag kind
  | @addAlias registry other name _ ih =>
      unfold Registry.addAlias at hget
      cases hname : Kind.ofName? name with
      | none =>
          -- a name that no kind has changes nothing
          rw [hname] at hget
          exact ih hget
      | some kind =>
          rw [hname] at hget
          dsimp only at hget
          rw [get?_register] at hget
          split at hget
          · obtain rfl := Option.some.inj hget
            exact hknown tag kind
          · exact ih hget
  | @add registry added _ hadded ih =>
      unfold Registry.add at hget
      rw [get?_register] at hget
      split at hget
      · rename_i htag
        obtain rfl := Option.some.inj hget
        exact htag ▸ hallowed added hadded
      · exact ih hget

/-- What holds of the known kinds and of what is allowed holds of all that a registry knows. -/
theorem Composed.forall {allowed P : Behavior → Prop} {registry : Registry}
    (h : registry.Composed allowed) (hknown : ∀ kind, P (.ofKind kind))
    (hallowed : ∀ behavior, allowed behavior → P behavior) {tag : String} {behavior : Behavior}
    (hget : registry.get? tag = some behavior) : P behavior :=
  h.forall_tag (P := fun _ behavior => P behavior) (fun _ => hknown) hallowed hget

/-! ## Tags that count as one kind -/

/-- Two tags stand for one behavior. -/
def Agree (registry : Registry) (tag other : String) : Prop :=
  ∃ behavior, registry.get? tag = some behavior ∧ registry.get? other = some behavior

/-- A behavior from outside has taken the tag of a known kind, which another tag still stands for. -/
def Supplants (registry : Registry) (tag other : String) : Prop :=
  ∃ kind behavior, tag = kind.tag ∧ registry.get? tag = some behavior ∧ behavior.kind = kind.tag
    ∧ behavior ≠ .ofKind kind ∧ registry.get? other = some (.ofKind kind)

/-- A behavior is known under the tag that it is registered for, or it is that of a known kind. -/
theorem Composed.registered {allowed : Behavior → Prop} {registry : Registry}
    (h : registry.Composed allowed) {tag : String} {behavior : Behavior}
    (hget : registry.get? tag = some behavior) :
    (∃ kind, behavior = .ofKind kind) ∨ behavior.kind = tag :=
  h.forall_tag (P := fun tag behavior => (∃ kind, behavior = .ofKind kind) ∨ behavior.kind = tag)
    (fun _ kind => Or.inl ⟨kind, rfl⟩) (fun _ _ => Or.inr rfl) hget

theorem equates_eq_true {registry : Registry} {tag other : String} :
    registry.equates tag other = true
      ↔ tag = other ∨ ∃ a b, registry.get? tag = some a ∧ registry.get? other = some b
        ∧ a.kind = b.kind := by
  unfold equates
  rw [Bool.or_eq_true, beq_iff_eq]
  refine or_congr_right ?_
  cases registry.get? tag with
  | none => simp
  | some a => cases registry.get? other <;> simp

/-- **When two tags count as one kind.** They are one tag, or they stand for one behavior; or one of them is
the tag of a known kind that stands for something else now, and the other still stands for that kind. -/
theorem Composed.equates_iff {allowed : Behavior → Prop} {registry : Registry}
    (h : registry.Composed allowed) {tag other : String} :
    registry.equates tag other = true
      ↔ tag = other ∨ registry.Agree tag other ∨ registry.Supplants tag other
        ∨ registry.Supplants other tag := by
  rw [equates_eq_true]
  constructor
  · rintro (heq | ⟨a, b, ha, hb, hkinds⟩)
    · exact Or.inl heq
    by_cases hab : a = b
    · exact Or.inr (Or.inl ⟨b, hab ▸ ha, hb⟩)
    rcases h.registered ha with ⟨kind, rfl⟩ | hatag
    · rw [Behavior.kind_ofKind] at hkinds
      rcases h.registered hb with ⟨kind', rfl⟩ | hbtag
      · rw [Behavior.kind_ofKind] at hkinds
        exact absurd (congrArg Behavior.ofKind (Kind.eq_of_tag hkinds)) hab
      · exact Or.inr (Or.inr (Or.inr ⟨kind, b, by rw [hkinds, hbtag], hb, hkinds.symm, Ne.symm hab, ha⟩))
    · rcases h.registered hb with ⟨kind, rfl⟩ | hbtag
      · rw [Behavior.kind_ofKind] at hkinds
        exact Or.inr (Or.inr (Or.inl ⟨kind, a, by rw [← hkinds, hatag], ha, hkinds, hab, hb⟩))
      · exact Or.inl (by rw [← hatag, hkinds, hbtag])
  · rintro (heq | ⟨behavior, ha, hb⟩ | ⟨kind, behavior, -, ha, hkind, -, hb⟩
      | ⟨kind, behavior, -, hb, hkind, -, ha⟩)
    · exact Or.inl heq
    · exact Or.inr ⟨behavior, behavior, ha, hb, rfl⟩
    · exact Or.inr ⟨behavior, _, ha, hb, by rw [hkind, Behavior.kind_ofKind]⟩
    · exact Or.inr ⟨_, behavior, ha, hb, by rw [hkind, Behavior.kind_ofKind]⟩

/-- Among the known kinds, tags that count as one kind are one tag or names of one kind. -/
theorem equates_builtin_iff {tag other : String} :
    builtin.equates tag other = true
      ↔ tag = other ∨ ∃ kind, Kind.ofName? tag = some kind ∧ Kind.ofName? other = some kind := by
  rw [equates_eq_true, get?_builtin_eq, get?_builtin_eq]
  refine or_congr_right ⟨?_, ?_⟩
  · rintro ⟨a, b, ha, hb, hkinds⟩
    obtain ⟨kind, htag, rfl⟩ := Option.map_eq_some_iff.mp ha
    obtain ⟨kind', hother, rfl⟩ := Option.map_eq_some_iff.mp hb
    rw [Behavior.kind_ofKind, Behavior.kind_ofKind] at hkinds
    exact ⟨kind, htag, Kind.eq_of_tag hkinds ▸ hother⟩
  · rintro ⟨kind, htag, hother⟩
    rw [htag, hother]
    exact ⟨_, _, rfl, rfl, rfl⟩

/-- Tags that count as one kind are names of one kind, or of none. -/
theorem ofName?_of_equates {tag other : String} (h : builtin.equates tag other = true) :
    Kind.ofName? tag = Kind.ofName? other := by
  rcases equates_builtin_iff.mp h with heq | ⟨kind, htag, hother⟩
  · rw [heq]
  · rw [htag, hother]

theorem equates_builtin_trans {a b c : String} (hab : builtin.equates a b = true)
    (hbc : builtin.equates b c = true) : builtin.equates a c = true := by
  rcases equates_builtin_iff.mp hab with rfl | ⟨kind, ha, hb⟩
  · exact hbc
  · rw [ofName?_of_equates hbc] at hb
    exact equates_builtin_iff.mpr (Or.inr ⟨kind, ha, hb⟩)

theorem equates_builtin_symm {a b : String} (h : builtin.equates a b = true) :
    builtin.equates b a = true := by
  rw [equates_builtin_iff] at h ⊢
  exact h.imp Eq.symm fun ⟨kind, ha, hb⟩ => ⟨kind, hb, ha⟩

end Registry

end DecisionGraph
