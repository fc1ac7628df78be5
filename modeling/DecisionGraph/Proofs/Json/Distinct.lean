import DecisionGraph.Json.Written
import DecisionGraph.Proofs.Keyed

/-!
# Values in which no name is given twice

The members of an object are looked up by their names, so a value says what it seems to say only if no
object in it has two members of one name (`Json.Distinct`). That is so for **every value that is read**
(`Json.distinct_parse?`), since of several members with one name the last stands.
-/

namespace DecisionGraph

/-- No object in the value, at any depth, has two members of one name. -/
inductive Json.Distinct : Json → Prop
  | null : Distinct .null
  | boolean (value : Bool) : Distinct (.boolean value)
  | number (value : Number) : Distinct (.number value)
  | text (value : String) : Distinct (.text value)
  | array {items : List Json} (hitems : ∀ item ∈ items, Distinct item) : Distinct (.array items)
  | object {members : Keyed Json} (hnames : (Keyed.names members).Nodup)
      (hmembers : ∀ member ∈ members, Distinct member.2) : Distinct (.object members)

namespace Written

mutual

theorem distinct_toJson? {room : Nat} :
    ∀ {written : Written} {value : Json}, toJson? room written = some value → value.Distinct
  | .null, value, h => by
    rw [toJson?] at h
    cases h
    exact .null
  | .boolean flag, value, h => by
    rw [toJson?] at h
    cases h
    exact .boolean flag
  | .number numeral, value, h => by
    rw [toJson?] at h
    obtain ⟨number, _, rfl⟩ := Option.map_eq_some_iff.mp h
    exact .number number
  | .text read, value, h => by
    rw [toJson?] at h
    obtain ⟨text, _, rfl⟩ := Option.map_eq_some_iff.mp h
    exact .text text
  | .array items, value, h => by
    rw [toJson?] at h
    split at h
    · cases h
    · obtain ⟨items, hitems, rfl⟩ := Option.map_eq_some_iff.mp h
      exact .array (distinct_toItems? hitems)
  | .object members, value, h => by
    rw [toJson?] at h
    split at h
    · cases h
    · obtain ⟨members, hmembers, rfl⟩ := Option.map_eq_some_iff.mp h
      refine .object (Keyed.ordered_ofList members).nodup_names fun member hmember => ?_
      exact distinct_toMembers? hmembers member (Keyed.mem_of_mem_ofList hmember)

theorem distinct_toItems? {room : Nat} : ∀ {written : List Written} {items : List Json},
    toItems? room written = some items → ∀ item ∈ items, item.Distinct
  | [], items, h => by
    rw [toItems?] at h
    cases h
    exact fun _ hitem => absurd hitem List.not_mem_nil
  | first :: rest, items, h => by
    rw [toItems?] at h
    split at h
    · rename_i item items hitem hitems
      cases h
      exact List.forall_mem_cons.mpr ⟨distinct_toJson? hitem, distinct_toItems? hitems⟩
    · cases h

theorem distinct_toMembers? {room : Nat} : ∀ {written : List (Option String × Written)}
    {members : List (String × Json)}, toMembers? room written = some members →
    ∀ member ∈ members, member.2.Distinct
  | [], members, h => by
    rw [toMembers?] at h
    cases h
    exact fun _ hmember => absurd hmember List.not_mem_nil
  | (name, first) :: rest, members, h => by
    unfold toMembers? at h
    split at h
    · rename_i name value members _ hvalue hmembers
      cases h
      exact List.forall_mem_cons.mpr ⟨distinct_toJson? hvalue, distinct_toMembers? hmembers⟩
    · cases h

end

end Written

/-- **In a value that is read no name is given twice.** -/
theorem Json.distinct_parse? {source : String} {value : Json} (h : Json.parse? source = some value) :
    value.Distinct := by
  obtain ⟨written, _, hvalue⟩ := Option.bind_eq_some_iff.mp h
  exact Written.distinct_toJson? hvalue

end DecisionGraph
