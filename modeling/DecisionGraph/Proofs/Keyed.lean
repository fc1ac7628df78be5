import DecisionGraph.Keyed
import Mathlib.Data.List.Nodup
import Mathlib.Data.String.Basic

/-!
# Maps, seen through `Keyed.get?`

What each operation of `Keyed` does to the view: after this nobody opens `Keyed.insert` again.
Looking up needs no order at all. The order (`Keyed.Ordered`) is what makes every name stand once,
and with it every value of the map is the value under some name.
-/

namespace DecisionGraph

universe u v

namespace Keyed

variable {α : Type u} {β : Type v}

/-! ## Looking up -/

@[simp] theorem get?_nil (name : String) : get? name ([] : Keyed α) = none := rfl

/-- **Insertion changes what stands under one name.** -/
theorem get?_insert (name key : String) (value : α) (entries : Keyed α) :
    get? key (insert name value entries) = if name = key then some value else get? key entries := by
  induction entries with
  | nil => rfl
  | cons entry rest ih =>
      obtain ⟨other, old⟩ := entry
      unfold insert
      split
      · rfl
      · split
        · rename_i _ heq
          subst heq
          by_cases hk : name = key <;> simp [get?, hk]
        · -- further on: the first name is passed over, and it is not the one that is put in
          rename_i _ hne
          rw [get?, ih, get?]
          by_cases hk : name = key
          · subst hk
            rw [if_neg (Ne.symm hne), if_pos rfl, if_pos rfl]
          · rw [if_neg hk, if_neg hk]

theorem get?_insert_self (name : String) (value : α) (entries : Keyed α) :
    get? name (insert name value entries) = some value := by
  rw [get?_insert, if_pos rfl]

theorem get?_insert_of_ne {name key : String} (h : name ≠ key) (value : α) (entries : Keyed α) :
    get? key (insert name value entries) = get? key entries := by
  rw [get?_insert, if_neg h]

/-- Of two values put in under one name the second stays. -/
theorem insert_insert (name : String) (value value' : α) (entries : Keyed α) :
    insert name value' (insert name value entries) = insert name value' entries := by
  induction entries with
  | nil => simp [insert]
  | cons entry rest ih =>
      obtain ⟨other, old⟩ := entry
      by_cases hlt : name < other
      · simp [insert, hlt]
      · by_cases heq : name = other
        · simp [insert, heq]
        · simp [insert, hlt, heq, ih]

theorem mem_names {name : String} {entries : Keyed α} :
    name ∈ names entries ↔ (get? name entries).isSome := by
  induction entries with
  | nil => simp [names]
  | cons entry rest ih =>
      obtain ⟨key, value⟩ := entry
      unfold names at ih ⊢
      by_cases hk : key = name
      · simp [get?, hk]
      · rw [List.map_cons, List.mem_cons, ih, get?, if_neg hk]
        simp [Ne.symm hk]

theorem names_erase (name : String) (entries : Keyed α) :
    names (erase name entries) = (names entries).filter fun key => key ≠ name := by
  unfold names erase
  rw [List.filter_map]
  rfl

/-- Erasing a name leaves what stands under the others. -/
theorem get?_erase_of_ne {name key : String} (h : key ≠ name) (entries : Keyed α) :
    get? key (erase name entries) = get? key entries := by
  unfold erase
  induction entries with
  | nil => rfl
  | cons entry rest ih =>
      obtain ⟨other, value⟩ := entry
      by_cases hother : other = name
      · have hkey : other ≠ key := fun heq => h (heq.symm.trans hother)
        rw [List.filter_cons_of_neg (by simpa using hother), ih, get?, if_neg hkey]
      · rw [List.filter_cons_of_pos (by simpa using hother), get?, get?, ih]

/-- What stands under a name once the entries under another name are erased. -/
theorem get?_erase (name key : String) (entries : Keyed α) :
    get? key (erase name entries) = if name = key then none else get? key entries := by
  split
  · rename_i heq
    have hnot : key ∉ names (erase name entries) := by simp [names_erase, heq]
    rwa [mem_names, Option.not_isSome_iff_eq_none] at hnot
  · rename_i hne
    exact get?_erase_of_ne (Ne.symm hne) entries

/-- A map made of names that have a value holds it under each of them. -/
theorem get?_ofList_filterMap (f : String → Option α) (texts : List String) (name : String) :
    get? name (ofList (texts.filterMap fun text => (f text).map fun value => (text, value)))
      = if name ∈ texts then f name else none := by
  -- the fold is generalised over the map it starts from
  have key : ∀ entries : Keyed α,
      get? name ((texts.filterMap fun text => (f text).map fun value => (text, value)).foldl
        (fun entries pair => insert pair.1 pair.2 entries) entries)
        = if name ∈ texts then (f name).or (get? name entries) else get? name entries := by
    induction texts with
    | nil => intro entries; simp
    | cons text rest ih =>
        intro entries
        cases hf : f text with
        | none =>
            rw [List.filterMap_cons_none (by rw [hf]; rfl), ih]
            by_cases ht : name = text
            · subst ht; simp [hf]
            · simp [ht]
        | some value =>
            rw [List.filterMap_cons_some (by rw [hf]; rfl), List.foldl_cons, ih, get?_insert]
            by_cases ht : text = name
            · subst ht; simp [hf]
            · simp [ht, Ne.symm ht]
  have hall := key []
  rwa [get?_nil, Option.or_none] at hall

/-- A map made of distinct names holds under each of them what it was made with. -/
theorem get?_ofList_map (f : String → α) (texts : List String) (name : String) :
    get? name (ofList (texts.map fun text => (text, f text)))
      = if name ∈ texts then some (f name) else none := by
  rw [← get?_ofList_filterMap (fun text => some (f text)), ← List.filterMap_eq_map]
  rfl

/-- What is found under a name stands in the list. -/
theorem mem_of_get? {name : String} {value : α} {entries : Keyed α} (h : get? name entries = some value) :
    (name, value) ∈ entries := by
  induction entries with
  | nil => cases h
  | cons entry rest ih =>
      rw [get?] at h
      split at h
      · rename_i heq
        cases h
        exact heq ▸ List.mem_cons_self ..
      · exact List.mem_cons_of_mem _ (ih h)

/-- Where every name stands once, what stands in the list is found. -/
theorem get?_of_mem {entries : Keyed α} (hdistinct : (names entries).Nodup) {name : String} {value : α}
    (hmem : (name, value) ∈ entries) : get? name entries = some value := by
  have hname : (get? name entries).isSome := mem_names.mp (List.mem_map_of_mem hmem)
  obtain ⟨found, hfound⟩ := Option.isSome_iff_exists.mp hname
  -- the entry that is found has the same name
  have heq := List.inj_on_of_nodup_map hdistinct (mem_of_get? hfound) hmem rfl
  rw [hfound, (Prod.mk.inj heq).2]

/-- What a map made of pairs holds was among the pairs. -/
theorem mem_of_get?_ofList {name : String} {value : α} {pairs : List (String × α)}
    (h : get? name (ofList pairs) = some value) : (name, value) ∈ pairs := by
  have key : ∀ entries : Keyed α,
      get? name (pairs.foldl (fun entries pair => insert pair.1 pair.2 entries) entries) = some value →
        (name, value) ∈ pairs ∨ get? name entries = some value := by
    clear h
    induction pairs with
    | nil => exact fun entries h => Or.inr h
    | cons pair rest ih =>
        intro entries h
        rcases ih (insert pair.1 pair.2 entries) h with hmem | hget
        · exact Or.inl (List.mem_cons_of_mem _ hmem)
        · rw [get?_insert] at hget
          by_cases hp : pair.1 = name
          · rw [if_pos hp] at hget
            obtain rfl := Option.some.inj hget
            exact Or.inl (hp ▸ List.mem_cons_self ..)
          · rw [if_neg hp] at hget
            exact Or.inr hget
  exact (key [] h).resolve_right (by simp)

/-- A map made of pairs with distinct names holds all of them. -/
theorem get?_ofList_of_mem {name : String} {value : α} {pairs : List (String × α)}
    (hdistinct : (pairs.map Prod.fst).Nodup) (hmem : (name, value) ∈ pairs) :
    get? name (ofList pairs) = some value := by
  have key : ∀ entries : Keyed α, (name, value) ∈ pairs ∨ name ∉ pairs.map Prod.fst ∧
      get? name entries = some value →
        get? name (pairs.foldl (fun entries pair => insert pair.1 pair.2 entries) entries)
          = some value := by
    clear hmem
    induction pairs with
    | nil => intro entries h; exact (h.resolve_left List.not_mem_nil).2
    | cons pair rest ih =>
        intro entries h
        obtain ⟨hfirst, hrest⟩ := List.nodup_cons.mp hdistinct
        refine ih hrest _ ?_
        rcases h with hmem | ⟨hnot, hget⟩
        · rcases List.mem_cons.mp hmem with heq | hmem
          · -- put in here, and by no later pair
            rw [← heq] at hfirst ⊢
            exact Or.inr ⟨hfirst, get?_insert_self ..⟩
          · exact Or.inl hmem
        · rw [List.map_cons, List.mem_cons, not_or] at hnot
          exact Or.inr ⟨hnot.2, by rw [get?_insert_of_ne (Ne.symm hnot.1), hget]⟩
  exact key [] (Or.inl hmem)

/-- A map made of the values under distinct names, each changed, holds the changed values. -/
theorem get?_ofList_mapValues {entries : Keyed α} (hdistinct : (names entries).Nodup) (f : α → β)
    (name : String) : get? name (ofList (mapValues f entries)) = (get? name entries).map f := by
  have hnames : (mapValues f entries).map Prod.fst = names entries := by simp [mapValues, names]
  cases hvalue : get? name entries with
  | some value =>
      refine get?_ofList_of_mem (hnames ▸ hdistinct) (List.mem_map.mpr ⟨_, mem_of_get? hvalue, rfl⟩)
  | none =>
      cases hfound : get? name (ofList (mapValues f entries)) with
      | none => rfl
      | some found =>
          have hmem : name ∈ names entries :=
            hnames ▸ List.mem_map_of_mem (mem_of_get?_ofList hfound)
          rw [mem_names, hvalue] at hmem
          cases hmem

/-- A map made of pairs with distinct names is found through like the pairs. -/
theorem get?_ofList {pairs : List (String × α)} (hdistinct : (names pairs).Nodup) (name : String) :
    get? name (ofList pairs) = get? name pairs := by
  have hself : mapValues id pairs = pairs := List.map_id _
  rw [← hself, get?_ofList_mapValues hdistinct, hself, Option.map_id_fun, id]

/-! ## Nothing in a map -/

theorem insert_ne_nil (name : String) (value : α) (entries : Keyed α) :
    insert name value entries ≠ [] := by
  cases entries with
  | nil => exact List.cons_ne_nil _ _
  | cons entry rest =>
      unfold insert
      split
      · exact List.cons_ne_nil _ _
      · split <;> exact List.cons_ne_nil _ _

theorem union_eq_nil {first second : Keyed α} : union first second = [] ↔ first = [] ∧ second = [] := by
  unfold union
  induction second generalizing first with
  | nil => exact (and_iff_left rfl).symm
  | cons entry rest ih =>
      rw [List.foldl_cons, ih]
      constructor
      · intro ⟨hinsert, _⟩
        exact absurd hinsert (insert_ne_nil _ _ _)
      · intro ⟨_, hcons⟩
        exact absurd hcons (List.cons_ne_nil _ _)

theorem ofList_eq_nil {pairs : List (String × α)} : ofList pairs = [] ↔ pairs = [] :=
  union_eq_nil.trans (and_iff_right rfl)

/-! ## The names of two maps together -/

theorem mem_names_insert {name key : String} {value : α} {entries : Keyed α} :
    key ∈ names (insert name value entries) ↔ key = name ∨ key ∈ names entries := by
  rw [mem_names, mem_names, get?_insert]
  by_cases h : name = key
  · simp [h]
  · simp [h, Ne.symm h]

theorem mem_names_union {name : String} {first second : Keyed α} :
    name ∈ names (union first second) ↔ name ∈ names first ∨ name ∈ names second := by
  unfold union
  induction second generalizing first with
  | nil => simp [names]
  | cons entry rest ih =>
      have hnames : names (entry :: rest) = entry.1 :: names rest := rfl
      rw [List.foldl_cons, ih, mem_names_insert, hnames, List.mem_cons, or_assoc, or_left_comm]

/-- A map made of pairs has the names of the pairs. -/
theorem mem_names_ofList {name : String} {pairs : List (String × α)} :
    name ∈ names (ofList pairs) ↔ name ∈ pairs.map Prod.fst :=
  mem_names_union.trans (or_iff_right List.not_mem_nil)

/-! ## The order -/

instance (entries : Keyed α) : Decidable (Ordered entries) :=
  inferInstanceAs (Decidable (entries.Pairwise fun a b => a.1 < b.1))

theorem ordered_nil : Ordered ([] : Keyed α) := List.Pairwise.nil

/-- Every name of the map after an insertion is the new one or an old one. -/
theorem mem_insert {name : String} {value : α} {entries : Keyed α} {entry : String × α}
    (h : entry ∈ insert name value entries) : entry = (name, value) ∨ entry ∈ entries := by
  induction entries with
  | nil => exact Or.inl (List.mem_singleton.mp h)
  | cons first rest ih =>
      obtain ⟨other, old⟩ := first
      unfold insert at h
      split at h
      · exact List.mem_cons.mp h
      · split at h
        · exact (List.mem_cons.mp h).imp id (List.mem_cons_of_mem _)
        · rcases List.mem_cons.mp h with heq | hmem
          · exact Or.inr (heq ▸ List.mem_cons_self ..)
          · exact (ih hmem).imp id (List.mem_cons_of_mem _)

/-- Every entry of a map made of pairs is one of the pairs. -/
theorem mem_of_mem_ofList {pairs : List (String × α)} {entry : String × α} (h : entry ∈ ofList pairs) :
    entry ∈ pairs := by
  have key : ∀ entries : Keyed α,
      entry ∈ pairs.foldl (fun entries pair => insert pair.1 pair.2 entries) entries →
        entry ∈ pairs ∨ entry ∈ entries := by
    clear h
    induction pairs with
    | nil => exact fun entries h => Or.inr h
    | cons pair rest ih =>
        intro entries h
        rcases ih (insert pair.1 pair.2 entries) h with hmem | hinsert
        · exact Or.inl (List.mem_cons_of_mem _ hmem)
        · rcases mem_insert hinsert with rfl | hold
          · exact Or.inl (List.mem_cons_self ..)
          · exact Or.inr hold
  exact (key [] h).resolve_right List.not_mem_nil

/-- **Insertion keeps the order.** -/
theorem Ordered.insert {entries : Keyed α} (h : Ordered entries) (name : String) (value : α) :
    Ordered (Keyed.insert name value entries) := by
  induction entries with
  | nil => exact List.pairwise_singleton _ _
  | cons first rest ih =>
      obtain ⟨other, old⟩ := first
      obtain ⟨hfirst, hrest⟩ := List.pairwise_cons.mp h
      unfold Keyed.insert
      split
      · rename_i hlt
        refine List.pairwise_cons.mpr ⟨?_, h⟩
        intro entry hmem
        rcases List.mem_cons.mp hmem with heq | hmem
        · rw [heq]; exact hlt
        · exact lt_trans hlt (hfirst entry hmem)
      · rename_i hnlt
        split
        · rename_i heq
          subst heq
          exact List.pairwise_cons.mpr ⟨hfirst, hrest⟩
        · rename_i hne
          refine List.pairwise_cons.mpr ⟨?_, ih hrest⟩
          intro entry hmem
          rcases mem_insert hmem with heq | hmem
          · rw [heq]; exact lt_of_le_of_ne (not_lt.mp hnlt) (Ne.symm hne)
          · exact hfirst entry hmem

theorem ordered_ofList (pairs : List (String × α)) : Ordered (ofList pairs) := by
  have key (entries : Keyed α) (h : Ordered entries) :
      Ordered (pairs.foldl (fun entries pair => Keyed.insert pair.1 pair.2 entries) entries) := by
    induction pairs generalizing entries with
    | nil => exact h
    | cons pair rest ih => exact ih _ (h.insert pair.1 pair.2)
  exact key [] ordered_nil

/-- In an ordered map every name stands once. -/
theorem Ordered.nodup_names {entries : Keyed α} (h : Ordered entries) : (names entries).Nodup := by
  refine List.Pairwise.map _ ?_ h
  intro a b hlt
  exact ne_of_lt hlt

/-- In an ordered map every value is the value under some name. -/
theorem Ordered.mem_values {entries : Keyed α} (h : Ordered entries) {value : α} :
    value ∈ values entries ↔ ∃ name, get? name entries = some value := by
  induction entries with
  | nil => simp [values]
  | cons first rest ih =>
      obtain ⟨key, old⟩ := first
      obtain ⟨hfirst, hrest⟩ := List.pairwise_cons.mp h
      unfold values at ih ⊢
      rw [List.map_cons, List.mem_cons, ih hrest]
      constructor
      · intro hvalue
        rcases hvalue with heq | ⟨name, hname⟩
        · exact ⟨key, by simp [get?, heq]⟩
        · -- a name that stands further on is not the first one
          have hmem : name ∈ names rest := mem_names.mpr (by rw [hname]; rfl)
          obtain ⟨entry, hentry, rfl⟩ := List.mem_map.mp hmem
          exact ⟨entry.1, by rw [get?, if_neg (ne_of_lt (hfirst entry hentry)), hname]⟩
      · intro ⟨name, hname⟩
        by_cases hk : key = name
        · rw [get?, if_pos hk] at hname
          exact Or.inl (Option.some.inj hname).symm
        · rw [get?, if_neg hk] at hname
          exact Or.inr ⟨name, hname⟩

/-- What stands under a name can be replaced, and the rest stays. -/
theorem exists_replaced {name : String} {entries : Keyed α} (h : name ∈ names entries) (value : α) :
    ∃ others, names others = names entries ∧ get? name others = some value
      ∧ ∀ key, key ≠ name → get? key others = get? key entries := by
  induction entries with
  | nil => exact absurd h List.not_mem_nil
  | cons entry rest ih =>
      obtain ⟨first, old⟩ := entry
      by_cases heq : first = name
      · refine ⟨(first, value) :: rest, rfl, if_pos heq, fun key hkey => ?_⟩
        rw [get?, get?, if_neg fun hfirst => hkey (hfirst.symm.trans heq)]
        exact (if_neg fun hfirst => hkey (hfirst.symm.trans heq)).symm
      · obtain ⟨others, hnames, hname, hothers⟩ := ih ((List.mem_cons.mp h).resolve_left (Ne.symm heq))
        refine ⟨(first, old) :: others, congrArg (first :: ·) hnames, ?_, fun key hkey => ?_⟩
        · rw [get?, if_neg heq, hname]
        · rw [get?, get?, hothers key hkey]

/-- In an ordered map an entry stands if it is found under its name. -/
theorem Ordered.mem_iff {entries : Keyed α} (h : Ordered entries) {name : String} {value : α} :
    (name, value) ∈ entries ↔ get? name entries = some value :=
  ⟨get?_of_mem h.nodup_names, mem_of_get?⟩

/-- **There is one way only to put entries in order.** -/
theorem Ordered.ext {first second : Keyed α} (h : Ordered first) (h' : Ordered second)
    (hget : ∀ name, get? name first = get? name second) : first = second := by
  have hmem : ∀ entry, entry ∈ first ↔ entry ∈ second := by
    intro ⟨name, value⟩
    rw [h.mem_iff, h'.mem_iff, hget]
  refine List.Perm.eq_of_pairwise ?_ h h'
    ((List.perm_ext_iff_of_nodup h.nodup_names.of_map h'.nodup_names.of_map).mpr hmem)
  intro entry other _ _ hlt hgt
  exact absurd (lt_trans hlt hgt) (lt_irrefl _)

/-- A map is made of its own entries. -/
theorem Ordered.ofList_eq {entries : Keyed α} (h : Ordered entries) : ofList entries = entries :=
  (ordered_ofList entries).ext h (get?_ofList h.nodup_names)

end Keyed

/-- `sortedDistinct` keeps the strings of a list. -/
theorem mem_sortedDistinct {text : String} {texts : List String} :
    text ∈ sortedDistinct texts ↔ text ∈ texts := by
  unfold sortedDistinct
  rw [Keyed.mem_names, Keyed.get?_ofList_map (fun _ => ())]
  by_cases h : text ∈ texts <;> simp [h]

/-- They are in ascending order, so each stands once. -/
theorem pairwise_sortedDistinct (texts : List String) : (sortedDistinct texts).Pairwise (· < ·) := by
  unfold sortedDistinct
  exact List.pairwise_map.mpr (Keyed.ordered_ofList _)

end DecisionGraph
