import DecisionGraph.Content.Views
import DecisionGraph.Proofs.Behavior.Issues
import DecisionGraph.Proofs.Keyed

/-!
# Content is read back

A view of a node's content is read again from the value that it is written as (`Decoder.Reads`). There is one
exception: a custom node that holds `null` as its configuration is written like one that holds none. But no
content is ever read as that view, so whatever content has been read, in whatever form it was, writing it and
reading it once more changes nothing (`Decoder.Rereads`).

The parts come first, then the records. A record is written with all its members under distinct names, so each
of them is found whatever stands beside it. This is what matters for mapping options, which are flattened into
the contents that have them (`Routing.decode_then`).
-/

namespace DecisionGraph

variable {α : Type}

/-- Every part is read from what it is written as. -/
def Decoder.Reads (decode : Decoder α) (encode : α → Json) : Prop := ∀ part, decode (encode part) = .ok part

/-- Content is read and written in forms that belong together. -/
structure Decoder.Rereads (decode : Decoder α) (encode : α → Json) (readable : α → Prop) : Prop where
  /-- The readable views are those that are read from some content. -/
  readable_iff : ∀ kind view, (∃ content, decodeContent kind decode content = .ok view) ↔ readable view
  /-- What has been read, from whatever content, is read again from what it is written as. -/
  again : ∀ kind content view, decodeContent kind decode content = .ok view →
    decodeContent kind decode (encode view) = .ok view

section Rereads

variable {decode : Decoder α} {encode : α → Json} {kind : String} {content : Json} {view : α}

theorem decodeContent_of_ne_null (hnull : content ≠ .null) (h : decode content = .ok view) :
    decodeContent kind decode content = .ok view := by
  unfold decodeContent
  split
  · exact absurd rfl hnull
  · exact congrArg (Except.mapError _) h

theorem exists_of_decodeContent (h : decodeContent kind decode content = .ok view) :
    ∃ value, decode value = .ok view := by
  have hread {value : Json} (h : (decode value).mapError (ContentMismatch.mk kind) = .ok view) :
      decode value = .ok view := by
    cases hvalue : decode value with
    | error error => cases hvalue ▸ h
    | ok part => cases hvalue ▸ h; rfl
  cases content with
  | null | boolean _ | number _ | text _ | array _ | object _ => exact ⟨_, hread h⟩

/-- It is enough to look at what is read without regard to a kind, if no view is written as `null`, which stands
for an empty object. -/
theorem Decoder.rereads_of {readable : α → Prop} (hnull : ∀ view, encode view ≠ .null)
    (hwritten : ∀ view, readable view → decode (encode view) = .ok view)
    (hread : ∀ value view, decode value = .ok view → readable view) :
    decode.Rereads encode readable := by
  have hreadable {kind : String} {content : Json} {view : α}
      (h : decodeContent kind decode content = .ok view) : readable view := by
    obtain ⟨value, hvalue⟩ := exists_of_decodeContent h
    exact hread value view hvalue
  have hagain {view : α} (kind : String) (h : readable view) :
      decodeContent kind decode (encode view) = .ok view :=
    decodeContent_of_ne_null (hnull view) (hwritten view h)
  exact ⟨fun kind view => ⟨fun ⟨_, h⟩ => hreadable h, fun h => ⟨encode view, hagain kind h⟩⟩,
    fun kind _ _ h => hagain kind (hreadable h)⟩

/-- Where every view is read from what it is written as, there is no view that cannot be read. -/
theorem Decoder.Reads.rereads (h : decode.Reads encode) (hnull : ∀ view, encode view ≠ .null) :
    decode.Rereads encode fun _ => True :=
  Decoder.rereads_of hnull (fun view _ => h view) fun _ _ _ => trivial

end Rereads

namespace Decode

variable {decode : Decoder α} {encode : α → Json}

/-! ## Parts -/

theorem map_reads : Decoder.Reads map .object := fun _ => rfl

theorem optional_text_reads : Decoder.Reads (optional text) Json.ofText? := by
  intro part
  cases part <;> rfl

theorem optional_flag_reads : Decoder.Reads (optional flag) Json.ofBoolean? := by
  intro part
  cases part <;> rfl

theorem each_reads (h : decode.Reads encode) (parts : List α) : each decode (parts.map encode) = .ok parts := by
  induction parts with
  | nil => rfl
  | cons part rest ih =>
      rw [List.map_cons, each, h part, ih]
      rfl

theorem list_reads (h : decode.Reads encode) :
    Decoder.Reads (list decode) fun parts => .array (parts.map encode) := each_reads h

/-- A part that may have any form cannot be `null`, which stands for none. -/
theorem optional_anything_eq {part : Option Json} (h : part ≠ some .null) :
    optional anything (part.getD .null) = .ok part := by
  match part with
  | none => rfl
  | some .null => exact absurd rfl h
  | some (.boolean _) | some (.number _) | some (.text _) | some (.array _) | some (.object _) => rfl

theorem ne_null_of_optional {value : Json} {part : Option Json} (h : optional anything value = .ok part) :
    part ≠ some .null := by
  cases value <;> cases h <;> nofun

/-! ## Members and items -/

section Members

variable {β : Type} {members : Keyed Json} {items : List Json} {name : String} {position : Nat}
  {missing part : α} {value : Json} {next : α → Except Mismatch β} {whole : β}

/-- A member is read from the value under its name, and then what comes behind it. -/
theorem member_then (hvalue : decode value = .ok part) (hmember : Keyed.get? name members = some value)
    (hnext : next part = .ok whole) : member members name missing decode >>= next = .ok whole := by
  unfold member
  rw [hmember]
  dsimp only
  rw [hvalue]
  exact hnext

/-- What a member is found to be stands for a missing one or has been read. -/
theorem of_member_eq (h : member members name missing decode = .ok part) :
    part = missing ∨ ∃ value, decode value = .ok part := by
  unfold member at h
  split at h
  · exact Or.inr ⟨_, h⟩
  · exact Or.inl (Except.ok.inj h).symm

theorem of_item_eq (h : item items position missing decode = .ok part) :
    part = missing ∨ ∃ value, decode value = .ok part := by
  unfold item at h
  split at h
  · exact Or.inr ⟨_, h⟩
  · exact Or.inl (Except.ok.inj h).symm

end Members

end Decode

open Decode

/-! ## Choices and mapping options -/

theorem ExecutionMode.optional_reads :
    Decoder.Reads (optional decode) fun mode => Json.ofText? (mode.map tag) := by
  intro mode
  match mode with
  | none | some .single | some .loop => rfl

theorem HitPolicy.optional_reads :
    Decoder.Reads (optional decode) fun policy => Json.ofText? (policy.map tag) := by
  intro policy
  match policy with
  | none | some .first | some .collect => rfl

/-- A record that options are flattened into holds their members beside its own. -/
theorem Routing.get?_flattened (own : List (String × Json)) (options : Routing)
    (hdistinct : ((own ++ options.toMembers).map Prod.fst).Nodup) :
    ∀ entry ∈ own ++ options.toMembers,
      Keyed.get? entry.1 (Keyed.ofList (own ++ options.toMembers)) = some entry.2 :=
  fun _ hentry => Keyed.get?_ofList_of_mem hdistinct hentry

/-- **Mapping options are read from whatever holds their members**, and then what comes behind them. -/
theorem Routing.decode_then {options : Routing} {members : Keyed Json} {next : Routing → Except Mismatch α}
    {whole : α} (h : ∀ entry ∈ options.toMembers, Keyed.get? entry.1 members = some entry.2)
    (hnext : next options = .ok whole) : decode members >>= next = .ok whole := by
  -- the members are read in the order in which they are written
  obtain ⟨hmode, h⟩ := List.forall_mem_cons.mp h
  obtain ⟨hinput, h⟩ := List.forall_mem_cons.mp h
  obtain ⟨houtput, h⟩ := List.forall_mem_cons.mp h
  have hpass := List.forall_mem_singleton.mp h
  have hoptions : decode members = .ok options := by
    refine member_then (ExecutionMode.optional_reads options.executionMode) hmode ?_
    refine member_then (optional_text_reads options.inputField) hinput ?_
    refine member_then (optional_text_reads options.outputPath) houtput ?_
    exact member_then (optional_flag_reads options.passThrough) hpass rfl
  rw [hoptions]
  exact hnext

/-! ## Rows -/

theorem ExpressionRow.decode_reads : decode.Reads toJson := by
  intro row
  refine member_then (optional_text_reads row.id) rfl ?_
  refine member_then (optional_text_reads row.key) rfl ?_
  exact member_then (optional_text_reads row.value) rfl rfl

theorem required_text_eq (value : String) : (text (.text value)).map some = .ok (some value) := rfl

theorem TableColumn.decode_reads : decode.Reads toJson := by
  intro column
  refine member_then (optional_text_reads column.field) rfl ?_
  refine member_then (required_text_eq column.id) rfl ?_
  exact member_then (optional_text_reads column.name) rfl rfl

theorem SwitchStatement.decode_reads : decode.Reads toJson := by
  intro statement
  refine member_then (optional_text_reads statement.condition) rfl ?_
  exact member_then (required_text_eq statement.id) rfl rfl

/-! ## The views -/

theorem ExpressionContent.decode_reads : decode.Reads toJson := by
  intro content
  have hholds := Routing.get?_flattened
    [("expressions", .array (content.expressions.map ExpressionRow.toJson))] content.routing
    (by simp [Routing.toMembers])
  obtain ⟨hrows, hrouting⟩ := List.forall_mem_cons.mp hholds
  refine member_then (list_reads ExpressionRow.decode_reads content.expressions) hrows ?_
  exact Routing.decode_then hrouting rfl

theorem DecisionTableContent.decode_reads : decode.Reads toJson := by
  intro content
  have hholds := Routing.get?_flattened [
      ("hitPolicy", Json.ofText? (content.hitPolicy.map HitPolicy.tag)),
      ("inputs", .array (content.inputs.map TableColumn.toJson)),
      ("outputs", .array (content.outputs.map TableColumn.toJson)),
      ("rules", .array (content.rules.map Json.object))] content.routing (by simp [Routing.toMembers])
  obtain ⟨hpolicy, h⟩ := List.forall_mem_cons.mp hholds
  obtain ⟨hinputs, h⟩ := List.forall_mem_cons.mp h
  obtain ⟨houtputs, h⟩ := List.forall_mem_cons.mp h
  obtain ⟨hrules, hrouting⟩ := List.forall_mem_cons.mp h
  refine member_then (HitPolicy.optional_reads content.hitPolicy) hpolicy ?_
  refine member_then (list_reads TableColumn.decode_reads content.inputs) hinputs ?_
  refine member_then (list_reads TableColumn.decode_reads content.outputs) houtputs ?_
  refine member_then (list_reads map_reads content.rules) hrules ?_
  exact Routing.decode_then hrouting rfl

theorem SwitchContent.decode_reads : decode.Reads toJson := by
  intro content
  refine member_then (HitPolicy.optional_reads content.hitPolicy) rfl ?_
  exact member_then (list_reads SwitchStatement.decode_reads content.statements) rfl rfl

theorem FunctionContent.decode_reads : decode.Reads toJson := by
  intro content
  cases content <;> rfl

theorem DecisionContent.decode_reads : decode.Reads toJson := by
  intro content
  have hholds := Routing.get?_flattened [("key", Json.ofText? content.key)] content.routing
    (by simp [Routing.toMembers])
  obtain ⟨hkey, hrouting⟩ := List.forall_mem_cons.mp hholds
  refine member_then (optional_text_reads content.key) hkey ?_
  exact Routing.decode_then hrouting rfl

theorem SchemaContent.decode_reads : decode.Reads toJson := by
  intro content
  exact member_then (optional_text_reads content.schema) rfl rfl

/-- A configuration that is `null` is written like none at all, so it is the one that is not read again. -/
theorem CustomContent.decode_toJson {content : CustomContent} (h : content.config ≠ some .null) :
    decode content.toJson = .ok content := by
  refine member_then (optional_anything_eq h) rfl ?_
  exact member_then (optional_text_reads content.kind) rfl rfl

/-- No content is read as a custom node whose configuration is `null`. -/
theorem CustomContent.config_ne_null {value : Json} {content : CustomContent} (h : decode value = .ok content) :
    content.config ≠ some .null := by
  have hconfig {config : Option Json} (h : config = none ∨ ∃ value, optional anything value = .ok config) :
      config ≠ some .null := by
    rcases h with rfl | ⟨value, hvalue⟩
    · nofun
    · exact ne_null_of_optional hvalue
  cases value with
  | null | boolean _ | number _ | text _ => cases h
  | object members =>
      obtain ⟨config, hmember, h⟩ := of_bind_eq_ok h
      obtain ⟨kind, _, h⟩ := of_bind_eq_ok h
      cases h
      exact hconfig (of_member_eq hmember)
  | array items =>
      -- the record is read first, and then its length is looked at
      obtain ⟨read, hread, h⟩ := of_bind_eq_ok h
      obtain ⟨_, _, h⟩ := of_bind_eq_ok h
      cases h
      obtain ⟨kind, _, h⟩ := of_bind_eq_ok hread
      obtain ⟨config, hitem, h⟩ := of_bind_eq_ok h
      cases h
      exact hconfig (of_item_eq hitem)

end DecisionGraph
