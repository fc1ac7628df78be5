import DecisionGraph.Json.Basic

/-!
# Deep equality

`Json.same` is an equivalence, and two values that are the same have the same form, with the same
parts at the same places. It is not equality: it does not see the sign of a zero. Each law is proved
for values, items and members at once, along the three functions.
-/

namespace DecisionGraph

theorem Double.same_iff {a b : Double} :
    a.same b = true ↔ a.magnitude = b.magnitude ∧ (a.negative = b.negative ∨ a.magnitude = 0) := by
  simp [same]

theorem Number.same_refl (a : Number) : a.same a = true := by
  cases a with
  | integer value => exact beq_self_eq_true value
  | double value => exact Double.same_iff.mpr ⟨rfl, Or.inl rfl⟩

theorem Number.same_symm {a b : Number} (h : a.same b = true) : b.same a = true := by
  cases a with
  | integer =>
      cases b with
      | integer => exact beq_iff_eq.mpr (beq_iff_eq.mp h).symm
      | double => cases h
  | double =>
      cases b with
      | integer => cases h
      | double =>
          obtain ⟨hmagnitude, hsign⟩ := Double.same_iff.mp h
          refine Double.same_iff.mpr ⟨hmagnitude.symm, ?_⟩
          exact hsign.imp Eq.symm fun hzero => hmagnitude ▸ hzero

theorem Number.same_trans {a b c : Number} (h : a.same b = true) (h' : b.same c = true) :
    a.same c = true := by
  cases a with
  | integer =>
      cases b with
      | integer => exact (beq_iff_eq.mp h) ▸ h'
      | double => cases h
  | double =>
      cases b with
      | integer => cases h
      | double =>
          cases c with
          | integer => cases h'
          | double =>
              obtain ⟨hm, hs⟩ := Double.same_iff.mp h
              obtain ⟨hm', hs'⟩ := Double.same_iff.mp h'
              refine Double.same_iff.mpr ⟨hm.trans hm', ?_⟩
              rcases hs with hs | hs
              · exact hs'.imp hs.trans fun hzero => hm.trans hzero
              · exact Or.inr hs

namespace Json

/-! ## What is the same as a value of each form -/

variable {b : Json}

theorem same_null : null.same b = true ↔ b = .null := by cases b <;> simp [same]

theorem same_boolean {value : Bool} : (boolean value).same b = true ↔ b = .boolean value := by
  cases b <;> simp [same, @eq_comm _ value]

theorem same_number {value : Number} :
    (number value).same b = true ↔ ∃ other, b = .number other ∧ value.same other = true := by
  cases b <;> simp [same]

theorem same_text {value : String} : (text value).same b = true ↔ b = .text value := by
  cases b <;> simp [same, @eq_comm _ value]

theorem same_array {items : List Json} :
    (array items).same b = true ↔ ∃ others, b = .array others ∧ sameItems items others = true := by
  cases b <;> simp [same]

theorem same_object {members : List (String × Json)} :
    (object members).same b = true
      ↔ ∃ others, b = .object others ∧ sameMembers members others = true := by
  cases b <;> simp [same]

theorem sameItems_nil {others : List Json} : sameItems [] others = true ↔ others = [] := by
  cases others <;> simp [sameItems]

theorem sameItems_cons {item : Json} {rest others : List Json} :
    sameItems (item :: rest) others = true
      ↔ ∃ other more, others = other :: more ∧ item.same other = true
        ∧ sameItems rest more = true := by
  cases others with
  | nil => simp [sameItems]
  | cons other more =>
      rw [sameItems, Bool.and_eq_true]
      constructor
      · intro ⟨hitem, hrest⟩
        exact ⟨other, more, rfl, hitem, hrest⟩
      · intro ⟨_, _, heq, hitem, hrest⟩
        obtain ⟨rfl, rfl⟩ := List.cons.inj heq
        exact ⟨hitem, hrest⟩

theorem sameMembers_nil {others : List (String × Json)} :
    sameMembers [] others = true ↔ others = [] := by
  cases others <;> simp [sameMembers]

theorem sameMembers_cons {name : String} {value : Json} {rest others : List (String × Json)} :
    sameMembers ((name, value) :: rest) others = true
      ↔ ∃ other more, others = (name, other) :: more ∧ value.same other = true
        ∧ sameMembers rest more = true := by
  cases others with
  | nil => simp [sameMembers]
  | cons first more =>
      obtain ⟨key, other⟩ := first
      rw [sameMembers, Bool.and_eq_true, Bool.and_eq_true, beq_iff_eq]
      constructor
      · intro ⟨⟨hname, hvalue⟩, hrest⟩
        subst hname
        exact ⟨other, more, rfl, hvalue, hrest⟩
      · intro ⟨_, _, heq, hvalue, hrest⟩
        obtain ⟨hfirst, rfl⟩ := List.cons.inj heq
        obtain ⟨rfl, rfl⟩ := Prod.mk.inj hfirst
        exact ⟨⟨rfl, hvalue⟩, hrest⟩

/-! ## An equivalence -/

mutual

theorem same_refl : ∀ value : Json, value.same value = true
  | .null => rfl
  | .boolean value => beq_self_eq_true value
  | .number value => value.same_refl
  | .text value => beq_self_eq_true value
  | .array items => sameItems_refl items
  | .object members => sameMembers_refl members

theorem sameItems_refl : ∀ items : List Json, sameItems items items = true
  | [] => rfl
  | item :: rest => sameItems_cons.mpr ⟨item, rest, rfl, same_refl item, sameItems_refl rest⟩

theorem sameMembers_refl : ∀ members : List (String × Json), sameMembers members members = true
  | [] => rfl
  | (_, value) :: rest =>
      sameMembers_cons.mpr ⟨value, rest, rfl, same_refl value, sameMembers_refl rest⟩

end

mutual

theorem same_symm : ∀ {a b : Json}, a.same b = true → b.same a = true
  | .null, b, h => by
      obtain rfl := same_null.mp h
      rfl
  | .boolean value, b, h => by
      obtain rfl := same_boolean.mp h
      exact same_refl _
  | .number value, b, h => by
      obtain ⟨other, rfl, hsame⟩ := same_number.mp h
      exact same_number.mpr ⟨value, rfl, Number.same_symm hsame⟩
  | .text value, b, h => by
      obtain rfl := same_text.mp h
      exact same_refl _
  | .array items, b, h => by
      obtain ⟨others, rfl, hsame⟩ := same_array.mp h
      exact same_array.mpr ⟨items, rfl, sameItems_symm hsame⟩
  | .object members, b, h => by
      obtain ⟨others, rfl, hsame⟩ := same_object.mp h
      exact same_object.mpr ⟨members, rfl, sameMembers_symm hsame⟩

theorem sameItems_symm : ∀ {as bs : List Json}, sameItems as bs = true → sameItems bs as = true
  | [], bs, h => by
      obtain rfl := sameItems_nil.mp h
      rfl
  | item :: rest, bs, h => by
      obtain ⟨other, more, rfl, hitem, hrest⟩ := sameItems_cons.mp h
      exact sameItems_cons.mpr ⟨item, rest, rfl, same_symm hitem, sameItems_symm hrest⟩

theorem sameMembers_symm : ∀ {as bs : List (String × Json)},
    sameMembers as bs = true → sameMembers bs as = true
  | [], bs, h => by
      obtain rfl := sameMembers_nil.mp h
      rfl
  | (name, value) :: rest, bs, h => by
      obtain ⟨other, more, rfl, hvalue, hrest⟩ := sameMembers_cons.mp h
      exact sameMembers_cons.mpr ⟨value, rest, rfl, same_symm hvalue, sameMembers_symm hrest⟩

end

mutual

theorem same_trans : ∀ {a b c : Json}, a.same b = true → b.same c = true → a.same c = true
  | .null, b, c, h, h' => by
      obtain rfl := same_null.mp h
      exact h'
  | .boolean value, b, c, h, h' => by
      obtain rfl := same_boolean.mp h
      exact h'
  | .number value, b, c, h, h' => by
      obtain ⟨other, rfl, hsame⟩ := same_number.mp h
      obtain ⟨third, rfl, hsame'⟩ := same_number.mp h'
      exact same_number.mpr ⟨third, rfl, Number.same_trans hsame hsame'⟩
  | .text value, b, c, h, h' => by
      obtain rfl := same_text.mp h
      exact h'
  | .array items, b, c, h, h' => by
      obtain ⟨others, rfl, hsame⟩ := same_array.mp h
      obtain ⟨thirds, rfl, hsame'⟩ := same_array.mp h'
      exact same_array.mpr ⟨thirds, rfl, sameItems_trans hsame hsame'⟩
  | .object members, b, c, h, h' => by
      obtain ⟨others, rfl, hsame⟩ := same_object.mp h
      obtain ⟨thirds, rfl, hsame'⟩ := same_object.mp h'
      exact same_object.mpr ⟨thirds, rfl, sameMembers_trans hsame hsame'⟩

theorem sameItems_trans : ∀ {as bs cs : List Json}, sameItems as bs = true →
    sameItems bs cs = true → sameItems as cs = true
  | [], bs, cs, h, h' => by
      obtain rfl := sameItems_nil.mp h
      exact h'
  | item :: rest, bs, cs, h, h' => by
      obtain ⟨other, more, rfl, hitem, hrest⟩ := sameItems_cons.mp h
      obtain ⟨third, last, rfl, hitem', hrest'⟩ := sameItems_cons.mp h'
      exact sameItems_cons.mpr
        ⟨third, last, rfl, same_trans hitem hitem', sameItems_trans hrest hrest'⟩

theorem sameMembers_trans : ∀ {as bs cs : List (String × Json)}, sameMembers as bs = true →
    sameMembers bs cs = true → sameMembers as cs = true
  | [], bs, cs, h, h' => by
      obtain rfl := sameMembers_nil.mp h
      exact h'
  | (name, value) :: rest, bs, cs, h, h' => by
      obtain ⟨other, more, rfl, hvalue, hrest⟩ := sameMembers_cons.mp h
      obtain ⟨third, last, rfl, hvalue', hrest'⟩ := sameMembers_cons.mp h'
      exact sameMembers_cons.mpr
        ⟨third, last, rfl, same_trans hvalue hvalue', sameMembers_trans hrest hrest'⟩

end

/-- Values that are the same are equal, or of a form in which a number can be hidden. -/
theorem same_cases {a b : Json} (h : a.same b = true) :
    a = b ∨ (∃ value other, a = .number value ∧ b = .number other)
      ∨ (∃ items others, a = .array items ∧ b = .array others ∧ sameItems items others = true)
      ∨ ∃ members others, a = .object members ∧ b = .object others
        ∧ sameMembers members others = true := by
  cases a with
  | null => exact Or.inl (same_null.mp h).symm
  | boolean value => exact Or.inl (same_boolean.mp h).symm
  | text value => exact Or.inl (same_text.mp h).symm
  | number value =>
      obtain ⟨other, rfl, _⟩ := same_number.mp h
      exact Or.inr (Or.inl ⟨value, other, rfl, rfl⟩)
  | array items =>
      obtain ⟨others, rfl, hsame⟩ := same_array.mp h
      exact Or.inr (Or.inr (Or.inl ⟨items, others, rfl, rfl, hsame⟩))
  | object members =>
      obtain ⟨others, rfl, hsame⟩ := same_object.mp h
      exact Or.inr (Or.inr (Or.inr ⟨members, others, rfl, rfl, hsame⟩))

/-! ## Parts at the same places -/

/-- Values that are the same, or none on either side. -/
def SameAt (first second : Option Json) : Prop :=
  (first = none ∧ second = none)
    ∨ ∃ value other, first = some value ∧ second = some other ∧ value.same other = true

theorem sameAt_get? {name : String} {members others : List (String × Json)}
    (h : sameMembers members others = true) :
    SameAt (Keyed.get? name members) (Keyed.get? name others) := by
  induction members generalizing others with
  | nil =>
      obtain rfl := sameMembers_nil.mp h
      exact Or.inl ⟨rfl, rfl⟩
  | cons member rest ih =>
      obtain ⟨key, value⟩ := member
      obtain ⟨other, more, rfl, hvalue, hrest⟩ := sameMembers_cons.mp h
      unfold Keyed.get?
      by_cases hname : key = name
      · rw [if_pos hname, if_pos hname]
        exact Or.inr ⟨value, other, rfl, rfl, hvalue⟩
      · rw [if_neg hname, if_neg hname]
        exact ih hrest

theorem sameAt_getElem? {items others : List Json} (h : sameItems items others = true)
    (position : Nat) : SameAt items[position]? others[position]? := by
  induction items generalizing others position with
  | nil =>
      obtain rfl := sameItems_nil.mp h
      exact Or.inl ⟨rfl, rfl⟩
  | cons item rest ih =>
      obtain ⟨other, more, rfl, hitem, hrest⟩ := sameItems_cons.mp h
      cases position with
      | zero => exact Or.inr ⟨item, other, rfl, rfl, hitem⟩
      | succ position =>
          rw [List.getElem?_cons_succ, List.getElem?_cons_succ]
          exact ih hrest position

theorem length_eq_of_sameItems {items others : List Json} (h : sameItems items others = true) :
    items.length = others.length := by
  induction items generalizing others with
  | nil =>
      obtain rfl := sameItems_nil.mp h
      rfl
  | cons item rest ih =>
      obtain ⟨other, more, rfl, hitem, hrest⟩ := sameItems_cons.mp h
      rw [List.length_cons, List.length_cons, ih hrest]

/-- Values that are the same hold the same text, if they hold any. -/
theorem text?_eq_of_same {a b : Json} (h : a.same b = true) : a.text? = b.text? := by
  rcases same_cases h with rfl | ⟨_, _, rfl, rfl⟩ | ⟨_, _, rfl, rfl, _⟩ | ⟨_, _, rfl, rfl, _⟩
  all_goals rfl

end Json

end DecisionGraph
