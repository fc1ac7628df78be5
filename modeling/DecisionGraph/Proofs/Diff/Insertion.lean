import DecisionGraph.Proofs.Diff.Movement
import Mathlib.Order.Hom.Basic

/-!
# Items put in between

Put items in between those of two sequences that are known by ids: anywhere, as many as you like, but with
labels that the other sequence does not have. The alignment stays what it was, except that places are shifted
and that the new items are added or removed (`align_inserted`). So every pair stays, and a pair has moved if it
had moved before.

The argument goes from the longer sequences back to the shorter ones. An item of a longer sequence has stood at
a place of the shorter one, or it has been put in (`Placed.origin?`), and each step of an alignment can be made
before items are taken back or after that:

1. **Pairing.** An item that has been put in has no partner and is nobody's partner. The others are paired by
   their ids, and for these it does not matter where items stand (`Align.pairUp_origin`).
2. **Movement.** The places of the pairs are shifted, but their order stays, and with it all ranks
   (`Align.entries_origin`).
3. **Removed items** are put before pairs by the order of places alone (`Align.place_origin`).

With fingerprints it does matter where items stand: what is put in between can take the nearest item away.
-/

namespace DecisionGraph

variable {α : Type}

/-! ## Insertions -/

/-- One sequence is another one with items put in between, none of which has a label of the items on the other
side. -/
structure Insertion (label : α → Label) (other items longer : List α) where
  /-- Where the items of the shorter sequence have gone, in their order. -/
  shift : Nat ↪o Nat
  kept : ∀ i, items[i]? = longer[shift i]?
  fresh : ∀ item ∈ placed longer, item.index ∉ Set.range shift → label item.item ∉ other.map label

/-- The item at the place where it has gone. -/
def Placed.shifted (shift : Nat ↪o Nat) (item : Placed α) : Placed α := ⟨shift item.index, item.item⟩

/-- The entry with its items at the places where they have gone. -/
def Slot.shifted (shift shift' : Nat ↪o Nat) : Slot α → Slot α
  | .paired previous current moved => .paired (previous.shifted shift) (current.shifted shift') moved
  | .added current => .added (current.shifted shift')
  | .removed previous => .removed (previous.shifted shift)

/-- Makes room for some items: places before `place` stay, the others move up. -/
def makeRoom (place room : Nat) (i : Nat) : Nat := if i < place then i else i + room

theorem strictMono_makeRoom (place room : Nat) : StrictMono (makeRoom place room) := by
  intro i j hlt
  unfold makeRoom
  split <;> split <;> omega

theorem mem_range_makeRoom {place room i : Nat} :
    i ∈ Set.range (makeRoom place room) ↔ i < place ∨ place + room ≤ i := by
  constructor
  · rintro ⟨j, rfl⟩
    unfold makeRoom
    split <;> omega
  · rintro (hlt | hge)
    · exact ⟨i, if_pos hlt⟩
    · refine ⟨i - room, ?_⟩
      rw [makeRoom, if_neg (by omega)]
      omega

namespace Insertion

variable {label : α → Label} {other items longer : List α}

/-- Nothing is put in. -/
def refl (label : α → Label) (other items : List α) : Insertion label other items items where
  shift := RelEmbedding.refl (· ≤ ·)
  kept := fun _ => rfl
  fresh := fun item _ hnot => (hnot ⟨item.index, rfl⟩).elim

/-- Items are put in at one place. -/
def block (before inserted after : List α) (h : ∀ item ∈ inserted, label item ∉ other.map label) :
    Insertion label other (before ++ after) (before ++ inserted ++ after) where
  shift := .ofStrictMono _ (strictMono_makeRoom before.length inserted.length)
  kept := by
    intro i
    rw [OrderEmbedding.coe_ofStrictMono, makeRoom, List.append_assoc]
    split
    · rename_i hlt
      rw [List.getElem?_append_left hlt, List.getElem?_append_left hlt]
    · rename_i hge
      have hbehind : before.length ≤ i := Nat.not_lt.mp hge
      rw [List.getElem?_append_right hbehind, List.getElem?_append_right (by omega),
        List.getElem?_append_right (by omega)]
      exact congrArg (after[·]?) (by omega)
  fresh := by
    intro item hitem hnot
    rw [OrderEmbedding.coe_ofStrictMono, mem_range_makeRoom, not_or] at hnot
    have hge : before.length ≤ item.index := Nat.not_lt.mp hnot.1
    have hlt : item.index - before.length < inserted.length := by omega
    have hget := mem_placed.mp hitem
    rw [List.append_assoc, List.getElem?_append_right hge, List.getElem?_append_left hlt] at hget
    exact h item.item (List.mem_of_getElem? hget)

end Insertion

/-! ## Where items come from -/

section Origin

variable {shift shift' : Nat ↪o Nat}

/-- The item at the place where it stood before others were put in; none if it has been put in itself. -/
noncomputable def Placed.origin? (shift : Nat ↪o Nat) (item : Placed α) : Option (Placed α) :=
  (Function.partialInv shift item.index).map fun place => ⟨place, item.item⟩

/-- The entry before others were put in; none if one of its items has been put in. -/
noncomputable def Slot.origin? (shift shift' : Nat ↪o Nat) : Slot α → Option (Slot α)
  | .paired previous current moved =>
    (previous.origin? shift).bind fun previous =>
      (current.origin? shift').map fun current => .paired previous current moved
  | .added current => (current.origin? shift').map .added
  | .removed previous => (previous.origin? shift).map .removed

/-- **An item comes from the place that is shifted to its own.** -/
theorem Placed.origin?_eq_some {item old : Placed α} :
    item.origin? shift = some old ↔ item = old.shifted shift := by
  have hinverse : ∀ place index, Function.partialInv shift index = some place ↔ shift place = index :=
    shift.injective.isPartialInv
  unfold Placed.origin?
  rw [Option.map_eq_some_iff]
  constructor
  · rintro ⟨place, hplace, rfl⟩
    obtain ⟨index, value⟩ := item
    obtain rfl := (hinverse place index).mp hplace
    rfl
  · rintro rfl
    exact ⟨old.index, (hinverse _ _).mpr rfl, rfl⟩

theorem Placed.origin?_shifted (item : Placed α) : (item.shifted shift).origin? shift = some item :=
  Placed.origin?_eq_some.mpr rfl

theorem Placed.origin?_eq_none {item : Placed α} :
    item.origin? shift = none ↔ item.index ∉ Set.range shift := by
  rw [Option.eq_none_iff_forall_ne_some]
  constructor
  · rintro h ⟨place, hplace⟩
    refine h ⟨place, item.item⟩ (Placed.origin?_eq_some.mpr ?_)
    rw [Placed.shifted, hplace]
  · rintro h old hold
    rw [Placed.origin?_eq_some] at hold
    exact h ⟨old.index, congrArg Placed.index hold.symm⟩

/-- Items are picked before others are taken back or after that, if it is the same ones that are picked. -/
theorem Placed.filter_origin {p q : Placed α → Bool} (h : ∀ old, q (old.shifted shift) = p old)
    (items : List (Placed α)) :
    (items.filterMap (Placed.origin? shift)).filter p = (items.filter q).filterMap (Placed.origin? shift) := by
  rw [List.filter_filterMap, List.filterMap_filter]
  refine List.filterMap_congr fun item _ => ?_
  cases horigin : item.origin? shift with
  | none => simp
  | some old =>
      obtain rfl := Placed.origin?_eq_some.mp horigin
      rw [h old]
      cases hp : p old <;> simp [Option.filter, hp]

theorem Slot.origin?_eq_some {slot old : Slot α} :
    slot.origin? shift shift' = some old ↔ slot = old.shifted shift shift' := by
  constructor
  · intro h
    cases slot with
    | paired previous current moved =>
        obtain ⟨item, hitem, h⟩ := Option.bind_eq_some_iff.mp h
        obtain ⟨other, hother, rfl⟩ := Option.map_eq_some_iff.mp h
        rw [Placed.origin?_eq_some.mp hitem, Placed.origin?_eq_some.mp hother, Slot.shifted]
    | added current =>
        obtain ⟨other, hother, rfl⟩ := Option.map_eq_some_iff.mp h
        rw [Placed.origin?_eq_some.mp hother, Slot.shifted]
    | removed previous =>
        obtain ⟨item, hitem, rfl⟩ := Option.map_eq_some_iff.mp h
        rw [Placed.origin?_eq_some.mp hitem, Slot.shifted]
  · rintro rfl
    cases old <;> simp [Slot.shifted, Slot.origin?, Placed.origin?_shifted]

/-- The entries that have been there before are those that come from somewhere. -/
theorem Slot.shifted_origin (slots : List (Slot α)) :
    (slots.filterMap (Slot.origin? shift shift')).map (Slot.shifted shift shift')
      = slots.filter fun slot => (slot.origin? shift shift').isSome := by
  rw [List.map_filterMap, ← List.filterMap_eq_filter]
  refine List.filterMap_congr fun slot _ => ?_
  cases horigin : slot.origin? shift shift' with
  | none => simp [Option.guard, horigin]
  | some old =>
      rw [Option.map_some, ← Slot.origin?_eq_some.mp horigin]
      simp [Option.guard, horigin]

theorem Slot.previous?_shifted (slot : Slot α) :
    (slot.shifted shift shift').previous? = slot.previous?.map (Placed.shifted shift) := by
  cases slot <;> rfl

theorem Slot.current?_shifted (slot : Slot α) :
    (slot.shifted shift shift').current? = slot.current?.map (Placed.shifted shift') := by
  cases slot <;> rfl

/-- Items that are taken back stand in their order. -/
theorem Ascending.origin {items : List (Placed α)} (h : Ascending items) (shift : Nat ↪o Nat) :
    Ascending (items.filterMap (Placed.origin? shift)) := by
  refine List.pairwise_filterMap.mpr (List.Pairwise.imp ?_ h)
  intro a b hlt old hold other hother
  rw [Placed.origin?_eq_some] at hold hother
  rw [hold, hother] at hlt
  exact shift.lt_iff_lt.mp hlt

/-- **Without the items that have been put in a sequence is what it was.** -/
theorem Insertion.origin {label : α → Label} {other items longer : List α}
    (h : Insertion label other items longer) :
    (placed longer).filterMap (Placed.origin? h.shift) = placed items := by
  refine ((ascending_placed longer).origin h.shift).ext (ascending_placed items) fun old => ?_
  simp only [List.mem_filterMap, Placed.origin?_eq_some]
  rw [mem_placed, h.kept, exists_eq_right, mem_placed]
  rfl

end Origin

namespace Align

variable {label : α → Label} {shift shift' : Nat ↪o Nat}

/-! ## Pairing -/

/-- A pair before others were put in; none if its current item has been put in. -/
noncomputable def pairOrigin? (shift shift' : Nat ↪o Nat) (pair : Option (Placed α) × Placed α) :
    Option (Option (Placed α) × Placed α) :=
  (pair.2.origin? shift').map fun current => (pair.1.bind (Placed.origin? shift), current)

theorem pairOrigin?_shifted (item other : Placed α) :
    pairOrigin? shift shift' (some (item.shifted shift), other.shifted shift') = some (some item, other) := by
  unfold pairOrigin?
  rw [Option.bind_some, Placed.origin?_shifted, Placed.origin?_shifted, Option.map_some]

/-- What has been put in has labels of its own, and what has not is known by ids. -/
structure Apart (label : α → Label) (shift shift' : Nat ↪o Nat) (pool items : List (Placed α)) : Prop where
  old : ∀ item ∈ pool, ∀ other ∈ items, label item.item = label other.item →
    (∃ before, item = Placed.shifted shift before) ∧ ∃ before, other = Placed.shifted shift' before
  named : ∀ before : Placed α, before.shifted shift' ∈ items → ∃ id, label before.item = .named id

theorem Apart.tail {pool items : List (Placed α)} {first : Placed α}
    (h : Apart label shift shift' pool (first :: items)) {fewer : List (Placed α)}
    (hfewer : fewer.Sublist pool) : Apart label shift shift' fewer items where
  old := fun item hitem other hother =>
    h.old item (hfewer.subset hitem) other (List.mem_cons_of_mem first hother)
  named := fun before hbefore => h.named before (List.mem_cons_of_mem first hbefore)

theorem carriers_origin (label : α → Label) (wanted : Label) (pool : List (Placed α)) :
    carriers label wanted (pool.filterMap (Placed.origin? shift))
      = (carriers label wanted pool).filterMap (Placed.origin? shift) := by
  unfold carriers
  refine Placed.filter_origin (fun item => ?_) pool
  rfl

/-- Items without a partner are taken back before the partner is taken out of the pool, or after that. -/
theorem without_origin (shift : Nat ↪o Nat) (pool : List (Placed α)) (partner : Option (Placed α))
    (h : ∀ item ∈ partner, ∃ old, item = Placed.shifted shift old) :
    without (pool.filterMap (Placed.origin? shift)) (partner.bind (Placed.origin? shift))
      = (without pool partner).filterMap (Placed.origin? shift) := by
  cases partner with
  | none => rfl
  | some partner =>
      obtain ⟨old, rfl⟩ := h partner rfl
      rw [Option.bind_some, Placed.origin?_shifted, without_some, without_some]
      refine Placed.filter_origin (fun item => ?_) pool
      exact decide_eq_decide.mpr (not_congr shift.injective.eq_iff)

/-- **An item that is known by an id is paired with the same item as before.** -/
theorem partner?_origin {pool : List (Placed α)} {id : String}
    (h : ∀ item ∈ pool, label item.item = .named id → ∃ old, item = Placed.shifted shift old)
    (place place' : Nat) :
    partner? label (pool.filterMap (Placed.origin? shift)) (.named id) place
      = (partner? label pool (.named id) place').bind (Placed.origin? shift) := by
  rw [partner?_named, partner?_named, carriers_origin]
  cases hcarriers : carriers label (.named id) pool with
  | nil => rfl
  | cons first rest =>
      have hfirst : first ∈ carriers label (.named id) pool := hcarriers ▸ List.mem_cons_self ..
      obtain ⟨hmem, hlabel⟩ := mem_carriers.mp hfirst
      obtain ⟨old, rfl⟩ := h first hmem hlabel
      rw [List.filterMap_cons_some (Placed.origin?_shifted old), List.head?_cons, List.head?_cons,
        Option.bind_some, Placed.origin?_shifted]

/-- **Items are paired as before, and what has been put in is left over.** -/
theorem pairUp_origin {pool items : List (Placed α)} (hpool : Ascending pool)
    (h : Apart label shift shift' pool items) :
    pairUp label (pool.filterMap (Placed.origin? shift)) (items.filterMap (Placed.origin? shift'))
      = ((pairUp label pool items).1.filterMap (pairOrigin? shift shift'),
        (pairUp label pool items).2.filterMap (Placed.origin? shift)) := by
  induction items generalizing pool with
  | nil => rfl
  | cons current rest ih =>
      have hpartner : ∀ item ∈ partner? label pool (label current.item) current.index,
          item ∈ pool ∧ label item.item = label current.item := by
        intro item hitem
        obtain ⟨hmem, hlabel, -⟩ := partner?_spec hpool hitem
        exact ⟨hmem, hlabel⟩
      rw [pairUp_cons]
      dsimp only
      generalize hchosen : partner? label pool (label current.item) current.index = partner at hpartner ⊢
      have hfewer := without_sublist pool partner
      have hrest := ih (List.Pairwise.sublist hfewer hpool) (h.tail hfewer)
      cases horigin : current.origin? shift' with
      | none =>
          -- a partner would have the label of an item that has been put in
          have hnone : partner = none := by
            refine Option.eq_none_iff_forall_ne_some.mpr fun item hitem => ?_
            obtain ⟨hmem, hlabel⟩ := hpartner item hitem
            obtain ⟨-, old, hold⟩ := h.old item hmem current (List.mem_cons_self ..) hlabel
            rw [← Placed.origin?_eq_some, horigin] at hold
            cases hold
          subst hnone
          rw [List.filterMap_cons_none horigin, List.filterMap_cons_none (by simp [pairOrigin?, horigin])]
          exact hrest
      | some old =>
          obtain rfl := Placed.origin?_eq_some.mp horigin
          obtain ⟨id, hid⟩ := h.named old (List.mem_cons_self ..)
          have hold : ∀ item ∈ pool, label item.item = label old.item →
              ∃ before, item = Placed.shifted shift before :=
            fun item hmem hlabel => (h.old item hmem _ (List.mem_cons_self ..) hlabel).1
          have hsame : partner? label (pool.filterMap (Placed.origin? shift)) (label old.item) old.index
              = partner.bind (Placed.origin? shift) := by
            rw [← hchosen, Placed.shifted, hid]
            exact partner?_origin (hid ▸ hold) _ _
          have hwithout := without_origin shift pool partner fun item hitem =>
            hold item (hpartner item hitem).1 (hpartner item hitem).2
          have hpair : pairOrigin? shift shift' (partner, old.shifted shift')
              = some (partner.bind (Placed.origin? shift), old) := by
            rw [pairOrigin?, horigin]
            rfl
          rw [List.filterMap_cons_some horigin, pairUp_cons, hsame]
          dsimp only
          rw [hwithout, hrest, List.filterMap_cons_some hpair]

/-! ## Movement -/

/-- Ranks do not depend on how much room there is between places. -/
theorem rank_shifted (shift : Nat ↪o Nat) (places : List Nat) (place : Nat) :
    rank (places.map shift) (shift place) = rank places place := by
  rw [rank_eq_countP, rank_eq_countP, List.countP_map]
  refine List.countP_congr fun other _ => ?_
  simp

section Entries

variable {pairs : List (Option (Placed α) × Placed α)}
  (h : ∀ item current, (some item, current) ∈ pairs →
    (∃ old, item = Placed.shifted shift old) ∧ ∃ old, current = Placed.shifted shift' old)
include h

theorem places_origin :
    previousPlaces pairs = (previousPlaces (pairs.filterMap (pairOrigin? shift shift'))).map shift
    ∧ currentPlaces pairs = (currentPlaces (pairs.filterMap (pairOrigin? shift shift'))).map shift' := by
  unfold previousPlaces currentPlaces
  rw [List.filterMap_filterMap, List.filterMap_filterMap, List.map_filterMap, List.map_filterMap]
  constructor
  all_goals
    refine List.filterMap_congr fun pair hmem => ?_
    obtain ⟨partner, current⟩ := pair
    cases partner with
    | none => cases horigin : current.origin? shift' <;> simp [pairOrigin?, horigin]
    | some item =>
        obtain ⟨⟨old, rfl⟩, old', rfl⟩ := h item current hmem
        rw [pairOrigin?_shifted]
        rfl

/-- **A pair has moved if it had moved before others were put in.** -/
theorem entries_origin :
    entries (pairs.filterMap (pairOrigin? shift shift'))
      = (entries pairs).filterMap (Slot.origin? shift shift') := by
  obtain ⟨hprevious, hcurrent⟩ := places_origin h
  rw [entries, entries, List.map_filterMap, List.filterMap_map]
  refine List.filterMap_congr fun pair hmem => ?_
  obtain ⟨partner, current⟩ := pair
  cases partner with
  | none =>
      cases horigin : current.origin? shift' <;> simp [pairOrigin?, entry, Slot.origin?, horigin]
  | some item =>
      obtain ⟨⟨old, rfl⟩, old', rfl⟩ := h item current hmem
      rw [hprevious, hcurrent]
      simp only [Function.comp_apply, pairOrigin?, entry, Slot.origin?, Placed.origin?_shifted,
        Option.map_some, Option.bind_some]
      rw [Placed.shifted, Placed.shifted, rank_shifted, rank_shifted]

end Entries

/-! ## Removed items -/

/-- Of a list in order those before a place come first. -/
theorem split_eq_filter {items : List (Placed α)} (h : Ascending items) (place : Nat) :
    items.takeWhile (fun item => item.index < place) = items.filter (fun item => item.index < place)
    ∧ items.dropWhile (fun item => item.index < place) = items.filter fun item => ¬item.index < place := by
  induction items with
  | nil => exact ⟨rfl, rfl⟩
  | cons first rest ih =>
      obtain ⟨hfirst, hrest⟩ := List.pairwise_cons.mp h
      by_cases hlt : first.index < place
      · simp only [List.takeWhile_cons, List.dropWhile_cons, List.filter_cons, hlt, decide_true, if_true]
        obtain ⟨htaken, hdropped⟩ := ih hrest
        exact ⟨congrArg (first :: ·) htaken, hdropped⟩
      · have hnot : ∀ item ∈ first :: rest, ¬item.index < place := by
          intro item hitem
          rcases List.mem_cons.mp hitem with rfl | hitem
          · exact hlt
          · have hlater := hfirst item hitem
            omega
        refine ⟨?_, ?_⟩
        · rw [List.takeWhile_cons_of_neg (by simpa using hlt), eq_comm, List.filter_eq_nil_iff]
          exact fun item hitem => by simpa using hnot item hitem
        · rw [List.dropWhile_cons_of_neg (by simpa using hlt), eq_comm, List.filter_eq_self]
          exact fun item hitem => by simpa using hnot item hitem

/-- The items before a place, and those behind it, come from before the place and from behind it. -/
theorem split_origin (shift : Nat ↪o Nat) {items : List (Placed α)} (h : Ascending items) (place : Nat) :
    (items.filterMap (Placed.origin? shift)).takeWhile (fun item => item.index < place)
      = (items.takeWhile fun item => item.index < shift place).filterMap (Placed.origin? shift)
    ∧ (items.filterMap (Placed.origin? shift)).dropWhile (fun item => item.index < place)
      = (items.dropWhile fun item => item.index < shift place).filterMap (Placed.origin? shift) := by
  obtain ⟨htaken, hdropped⟩ := split_eq_filter h (shift place)
  obtain ⟨htaken', hdropped'⟩ := split_eq_filter (h.origin shift) place
  rw [htaken, hdropped, htaken', hdropped']
  constructor
  · exact Placed.filter_origin (fun _ => decide_eq_decide.mpr shift.lt_iff_lt) items
  · exact Placed.filter_origin (fun _ => decide_eq_decide.mpr (not_congr shift.lt_iff_lt)) items

theorem map_removed_origin (removed : List (Placed α)) :
    (removed.filterMap (Placed.origin? shift)).map Slot.removed
      = (removed.map Slot.removed).filterMap (Slot.origin? shift shift') := by
  rw [List.map_filterMap, List.filterMap_map]
  rfl

/-- **Removed items are put where they were put before.** -/
theorem place_origin {removed : List (Placed α)} (hremoved : Ascending removed) {slots : List (Slot α)}
    (h : ∀ previous current moved, Slot.paired previous current moved ∈ slots →
      (∃ old, previous = Placed.shifted shift old) ∧ ∃ old, current = Placed.shifted shift' old) :
    place (removed.filterMap (Placed.origin? shift)) (slots.filterMap (Slot.origin? shift shift'))
      = (place removed slots).filterMap (Slot.origin? shift shift') := by
  induction slots generalizing removed with
  | nil => exact map_removed_origin removed
  | cons slot rest ih =>
      have hrest := fun {items : List (Placed α)} (hitems : Ascending items) =>
        ih hitems fun previous current moved hmem => h previous current moved (List.mem_cons_of_mem _ hmem)
      cases slot with
      | paired previous current moved =>
          obtain ⟨⟨old, rfl⟩, old', rfl⟩ := h _ _ moved (List.mem_cons_self ..)
          have hslot : (Slot.paired (old.shifted shift) (old'.shifted shift') moved).origin? shift shift'
              = some (.paired old old' moved) := Slot.origin?_eq_some.mpr rfl
          have hdropped : Ascending (removed.dropWhile fun item => item.index < (old.shifted shift).index) :=
            List.Pairwise.sublist (List.dropWhile_sublist _) hremoved
          obtain ⟨htaken, hleft⟩ := split_origin shift hremoved old.index
          rw [List.filterMap_cons_some hslot, place_paired, place_paired, List.filterMap_append,
            List.filterMap_cons_some hslot, ← map_removed_origin, ← hrest hdropped, htaken, hleft]
          rfl
      | added current =>
          rw [place_added, List.filterMap_cons, List.filterMap_cons, Slot.origin?]
          cases current.origin? shift' with
          | none => exact hrest hremoved
          | some old => exact congrArg (.added old :: ·) (hrest hremoved)
      | removed previous =>
          rw [place_removed, List.filterMap_cons, List.filterMap_cons, Slot.origin?]
          cases previous.origin? shift with
          | none => exact hrest hremoved
          | some old => exact congrArg (.removed old :: ·) (hrest hremoved)

end Align

/-! ## The whole alignment -/

open Align

section Whole

variable {label : α → Label} {previous previous' current current' : List α}
  (hnamed : ∀ item ∈ current, ∃ id, label item = .named id)
  (f : Insertion label current' previous previous') (g : Insertion label previous' current current')
include hnamed

theorem apart_placed : Apart label f.shift g.shift (placed previous') (placed current') where
  old := by
    have hmem : ∀ {items : List α} {item : Placed α}, item ∈ placed items →
        label item.item ∈ items.map label :=
      fun hitem => List.mem_map_of_mem (List.mem_of_getElem? (mem_placed.mp hitem))
    have hold : ∀ {shift : Nat ↪o Nat} {item : Placed α}, item.index ∈ Set.range shift →
        ∃ before, item = Placed.shifted shift before := by
      rintro shift ⟨_, value⟩ ⟨place, rfl⟩
      exact ⟨⟨place, value⟩, rfl⟩
    intro item hitem other hother hlabel
    refine ⟨hold ?_, hold ?_⟩
    · by_contra hnot
      exact f.fresh item hitem hnot (hlabel ▸ hmem hother)
    · by_contra hnot
      exact g.fresh other hother hnot (hlabel ▸ hmem hitem)
  named := by
    intro before hbefore
    have hget : current[before.index]? = some before.item := (g.kept _).trans (mem_placed.mp hbefore)
    exact hnamed before.item (List.mem_of_getElem? hget)

/-- The items of a pair have been in both sequences before. -/
theorem shifted_of_paired {item other : Placed α} {moved : Bool}
    (h : Slot.paired item other moved ∈ align label previous' current') :
    (∃ old, item = Placed.shifted f.shift old) ∧ ∃ old, other = Placed.shifted g.shift old := by
  obtain ⟨hitem, hother, hlabel, -⟩ := Paired.spec ⟨moved, h⟩
  exact (apart_placed hnamed f g).old item hitem other hother hlabel

/-- **Without the items that have been put in, an alignment is what it was.** -/
theorem align_origin :
    (align label previous' current').filterMap (Slot.origin? f.shift g.shift) = align label previous current := by
  have hpool := ascending_placed previous'
  have hslots : ∀ item other moved,
      Slot.paired item other moved ∈ entries (pairUp label (placed previous') (placed current')).1 →
        (∃ old, item = Placed.shifted f.shift old) ∧ ∃ old, other = Placed.shifted g.shift old :=
    fun _ _ _ h => shifted_of_paired hnamed f g (paired_mem_align.mpr h)
  rw [align_eq, align_eq, ← place_origin (ascending_left hpool _) hslots,
    ← entries_origin fun item other h => hslots item other _ (paired_mem_entries.mpr ⟨h, rfl⟩),
    ← f.origin, ← g.origin, pairUp_origin hpool (apart_placed hnamed f g)]

end Whole

/--
**What is put in between moves nothing.**

Put items in between those of two sequences whose labels the other sequence does not have. In the alignment of
the longer sequences stand the entries of the shorter ones, at shifted places and in their order: all pairs, with
the same movement, and what was added or removed before. The rest are the items that have been put in, as added
and as removed ones.

Only current items look for a partner, so it is enough that these are known by ids.
-/
theorem align_inserted {label : α → Label} {previous previous' current current' : List α}
    (hnamed : ∀ item ∈ current, ∃ id, label item = .named id)
    (f : Insertion label current' previous previous') (g : Insertion label previous' current current') :
    let before := (align label previous current).map (Slot.shifted f.shift g.shift)
    let slots := align label previous' current'
    before.Sublist slots
    ∧ (∀ slot ∈ slots, slot ∈ before
      ∨ (∃ item, slot = .removed item ∧ item.index ∉ Set.range f.shift)
      ∨ ∃ item, slot = .added item ∧ item.index ∉ Set.range g.shift)
    ∧ (∀ item ∈ placed previous', item.index ∉ Set.range f.shift → .removed item ∈ slots)
    ∧ ∀ item ∈ placed current', item.index ∉ Set.range g.shift → .added item ∈ slots := by
  intro before slots
  have hbefore : before = slots.filter fun slot => (slot.origin? f.shift g.shift).isSome := by
    rw [← Slot.shifted_origin, align_origin hnamed f g]
  have hrest : ∀ slot ∈ slots, slot ∈ before
      ∨ (∃ item, slot = .removed item ∧ item.index ∉ Set.range f.shift)
      ∨ ∃ item, slot = .added item ∧ item.index ∉ Set.range g.shift := by
    intro slot hslot
    by_cases horigin : slot.origin? f.shift g.shift = none
    · cases slot with
      | paired item other moved =>
          obtain ⟨⟨old, rfl⟩, old', rfl⟩ := shifted_of_paired hnamed f g hslot
          simp [Slot.origin?, Placed.origin?_shifted] at horigin
      | added other =>
          have hnew := Option.map_eq_none_iff.mp horigin
          exact .inr (.inr ⟨other, rfl, Placed.origin?_eq_none.mp hnew⟩)
      | removed item =>
          have hnew := Option.map_eq_none_iff.mp horigin
          exact .inr (.inl ⟨item, rfl, Placed.origin?_eq_none.mp hnew⟩)
    · rw [hbefore]
      exact .inl (List.mem_filter.mpr ⟨hslot, Option.isSome_iff_ne_none.mpr horigin⟩)
  refine ⟨hbefore ▸ List.filter_sublist, hrest, ?_, ?_⟩
  · intro item hitem hnot
    rw [← (align_previous_perm label previous' current').mem_iff, List.mem_filterMap] at hitem
    obtain ⟨slot, hslot, hprevious⟩ := hitem
    rcases hrest slot hslot with hold | ⟨other, rfl, -⟩ | ⟨other, rfl, -⟩
    · obtain ⟨old, -, rfl⟩ := List.mem_map.mp hold
      rw [Slot.previous?_shifted] at hprevious
      obtain ⟨place, -, rfl⟩ := Option.map_eq_some_iff.mp hprevious
      exact (hnot ⟨place.index, rfl⟩).elim
    · rwa [← Option.some.inj hprevious]
    · cases hprevious
  · intro item hitem hnot
    rw [← align_current label previous' current', List.mem_filterMap] at hitem
    obtain ⟨slot, hslot, hcurrent⟩ := hitem
    rcases hrest slot hslot with hold | ⟨other, rfl, -⟩ | ⟨other, rfl, -⟩
    · obtain ⟨old, -, rfl⟩ := List.mem_map.mp hold
      rw [Slot.current?_shifted] at hcurrent
      obtain ⟨place, -, rfl⟩ := Option.map_eq_some_iff.mp hcurrent
      exact (hnot ⟨place.index, rfl⟩).elim
    · cases hcurrent
    · rwa [← Option.some.inj hcurrent]

/-- Two items that have changed places and one that is gone, with two items put in on the one side, of one
id, and one on the other, or none. -/
theorem align_inserted_exchanged :
    let f : Insertion Label.named ["x", "b", "a"] ["a", "b", "c"] ["a", "p", "p", "b", "c"] :=
      .block ["a"] ["p", "p"] ["b", "c"] (by decide)
    let g : Insertion Label.named ["a", "p", "p", "b", "c"] ["b", "a"] ["x", "b", "a"] :=
      .block [] ["x"] ["b", "a"] (by decide)
    let before := align Label.named ["a", "b", "c"] ["b", "a"]
    let slots := align Label.named ["a", "p", "p", "b", "c"] ["x", "b", "a"]
    (before.map (Slot.shifted f.shift g.shift)).Sublist slots
      ∧ before.map (Slot.shifted f.shift g.shift)
        = [.paired ⟨3, "b"⟩ ⟨1, "b"⟩ true, .paired ⟨0, "a"⟩ ⟨2, "a"⟩ true, .removed ⟨4, "c"⟩]
      ∧ .removed ⟨1, "p"⟩ ∈ slots ∧ .removed ⟨2, "p"⟩ ∈ slots ∧ .added ⟨0, "x"⟩ ∈ slots
      ∧ .removed ⟨2, "p"⟩ ∈ align Label.named ["a", "p", "p", "b", "c"] ["b", "a"] := by
  intro f g before slots
  obtain ⟨hbefore, -, hremoved, hadded⟩ := align_inserted (fun item _ => ⟨item, rfl⟩) f g
  have hnew : ∀ place room i, place ≤ i → i < place + room → i ∉ Set.range (makeRoom place room) := by
    intro place room i hle hlt
    rw [mem_range_makeRoom]
    omega
  -- on one side alone
  let alone : Insertion Label.named ["b", "a"] ["a", "b", "c"] ["a", "p", "p", "b", "c"] :=
    .block ["a"] ["p", "p"] ["b", "c"] (by decide)
  obtain ⟨-, -, hremoved', -⟩ := align_inserted (fun item _ => ⟨item, rfl⟩) alone (.refl _ _ ["b", "a"])
  exact ⟨hbefore, rfl, hremoved ⟨1, "p"⟩ (mem_placed.mpr rfl) (hnew 1 2 1 (by omega) (by omega)),
    hremoved ⟨2, "p"⟩ (mem_placed.mpr rfl) (hnew 1 2 2 (by omega) (by omega)),
    hadded ⟨0, "x"⟩ (mem_placed.mpr rfl) (hnew 0 1 0 (by omega) (by omega)),
    hremoved' ⟨2, "p"⟩ (mem_placed.mpr rfl) (hnew 1 2 2 (by omega) (by omega))⟩

end DecisionGraph
