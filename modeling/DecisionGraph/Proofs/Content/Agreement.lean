import DecisionGraph.Content.Views
import DecisionGraph.Proofs.Json.Same
import Mathlib.Data.List.Forall2

/-!
# Same contents are read alike

Reading two values that are the same (`Json.same`) either fails for both or succeeds for both with
parts that belong together (`Decoder.Respects`). What belongs together is equality for every view
but those that hold JSON values themselves; those are the same again. The errors can differ, since
they print numbers with their signs.

The combinators of `Decode` are shown to respect `Json.same` one by one, the views follow.
-/

namespace DecisionGraph

/-- Both fail, or both succeed with values that belong together. -/
inductive Agrees {ε α : Type} (R : α → α → Prop) : Except ε α → Except ε α → Prop where
  | ok {a b : α} (h : R a b) : Agrees R (.ok a) (.ok b)
  | error (e e' : ε) : Agrees R (.error e) (.error e')

namespace Agrees

variable {ε α β : Type} {R : α → α → Prop} {S : β → β → Prop}

theorem of_eq (hrefl : ∀ a, R a a) (x : Except ε α) : Agrees R x x := by
  cases x with
  | ok a => exact .ok (hrefl a)
  | error e => exact .error e e

theorem imp {R' : α → α → Prop} (hR : ∀ a b, R a b → R' a b) {x y : Except ε α}
    (h : Agrees R x y) : Agrees R' x y := by
  cases h with
  | ok h => exact .ok (hR _ _ h)
  | error e e' => exact .error e e'

theorem bind {x y : Except ε α} {f g : α → Except ε β} (h : Agrees R x y)
    (hnext : ∀ a b, R a b → Agrees S (f a) (g b)) : Agrees S (x >>= f) (y >>= g) := by
  cases h with
  | ok h => exact hnext _ _ h
  | error e e' => exact .error e e'

/-- What comes first agrees in the very values, so the rest has only one value to deal with. -/
theorem bind_eq {x y : Except ε α} {f g : α → Except ε β} (h : Agrees Eq x y)
    (hnext : ∀ a, Agrees S (f a) (g a)) : Agrees S (x >>= f) (y >>= g) :=
  h.bind fun a _ heq => heq ▸ hnext a

theorem map {x y : Except ε α} {f : α → β} (h : Agrees R x y) (hf : ∀ a b, R a b → S (f a) (f b)) :
    Agrees S (x.map f) (y.map f) := by
  cases h with
  | ok h => exact .ok (hf _ _ h)
  | error e e' => exact .error e e'

theorem mapError {δ : Type} {x y : Except ε α} {f : ε → δ} (h : Agrees R x y) :
    Agrees R (x.mapError f) (y.mapError f) := by
  cases h with
  | ok h => exact .ok h
  | error e e' => exact .error _ _

theorem toOption_eq {x y : Except ε α} (h : Agrees Eq x y) : x.toOption = y.toOption := by
  cases h with
  | ok h => exact congrArg some h
  | error e e' => rfl

end Agrees

/-- Values that are the same are read alike. -/
def Decoder.Respects {α : Type} (decode : Decoder α) (R : α → α → Prop) : Prop :=
  ∀ a b : Json, a.same b = true → Agrees R (decode a) (decode b)

namespace Decode

open Json

variable {α : Type} {R : α → α → Prop} {decode : Decoder α}

/-! ## Single values -/

/-- Values of the forms in which no number is hidden are read alike, since they are equal. -/
theorem respects_of_forms (hrefl : ∀ value, R value value)
    (hnumber : ∀ a b, Agrees R (decode (.number a)) (decode (.number b)))
    (harray : ∀ items others, sameItems items others = true →
      Agrees R (decode (.array items)) (decode (.array others)))
    (hobject : ∀ members others, sameMembers members others = true →
      Agrees R (decode (.object members)) (decode (.object others))) : decode.Respects R := by
  intro a b h
  rcases same_cases h with rfl | ⟨_, _, rfl, rfl⟩ | ⟨_, _, rfl, rfl, hsame⟩ | ⟨_, _, rfl, rfl, hsame⟩
  · exact .of_eq hrefl _
  · exact hnumber _ _
  · exact harray _ _ hsame
  · exact hobject _ _ hsame

theorem text_respects : Decoder.Respects text Eq :=
  respects_of_forms (fun _ => rfl) (fun _ _ => .error _ _) (fun _ _ _ => .error _ _)
    fun _ _ _ => .error _ _

theorem flag_respects : Decoder.Respects flag Eq :=
  respects_of_forms (fun _ => rfl) (fun _ _ => .error _ _) (fun _ _ _ => .error _ _)
    fun _ _ _ => .error _ _

theorem map_respects : Decoder.Respects map fun a b => sameMembers a b = true :=
  respects_of_forms sameMembers_refl (fun _ _ => .error _ _) (fun _ _ _ => .error _ _)
    fun _ _ hsame => .ok hsame

/-- What is not `null` is read as it is. -/
theorem optional_of_ne_null {a : Json} (h : a ≠ .null) : optional decode a = (decode a).map some := by
  cases a <;> first | rfl | exact absurd rfl h

theorem optional_respects (h : decode.Respects R) : (optional decode).Respects (Option.Rel R) := by
  intro a b hsame
  by_cases hnull : a = .null
  · subst hnull
    rw [same_null.mp hsame]
    exact .ok .none
  · have hnull' : b ≠ .null := fun hb => hnull (same_null.mp (hb ▸ same_symm hsame))
    rw [optional_of_ne_null hnull, optional_of_ne_null hnull']
    exact (h a b hsame).map fun _ _ => .some

theorem optional_respects_eq (h : decode.Respects Eq) : (optional decode).Respects Eq := by
  intro a b hsame
  refine (optional_respects h a b hsame).imp fun x y hrel => ?_
  cases hrel with
  | none => rfl
  | some heq => rw [heq]

/-! ## Choices -/

theorem nothing_respects (bare : Bool) : Decoder.Respects (nothing bare) Eq := by
  refine respects_of_forms (fun _ => rfl) (fun _ _ => .error _ _) (fun _ _ _ => .error _ _) ?_
  intro members others hsame
  cases members with
  | nil => rw [sameMembers_nil.mp hsame]; exact .of_eq (fun _ => rfl) _
  | cons member rest =>
      obtain ⟨_, _, rfl, _⟩ := sameMembers_cons.mp hsame
      exact .error _ _

theorem choice_respects (bare : Bool) (first second : String × α) :
    Decoder.Respects (choice bare first second) Eq := by
  refine respects_of_forms (fun _ => rfl) (fun _ _ => .error _ _) (fun _ _ _ => .error _ _) ?_
  intro members others hsame
  -- an object makes a choice if it has exactly one member
  cases members with
  | nil => rw [sameMembers_nil.mp hsame]; exact .error _ _
  | cons member rest =>
      obtain ⟨other, more, rfl, hvalue, hrest⟩ := sameMembers_cons.mp hsame
      cases rest with
      | nil =>
          rw [sameMembers_nil.mp hrest]
          refine Agrees.bind_eq (.of_eq (fun _ => rfl) _) fun chosen => ?_
          exact (nothing_respects bare _ _ hvalue).bind_eq fun _ => .ok rfl
      | cons member' rest' =>
          obtain ⟨_, _, rfl, _⟩ := sameMembers_cons.mp hrest
          exact .error _ _

/-! ## Lists -/

theorem each_respects (h : decode.Respects R) {items others : List Json}
    (hsame : sameItems items others = true) :
    Agrees (List.Forall₂ R) (each decode items) (each decode others) := by
  induction items generalizing others with
  | nil => rw [sameItems_nil.mp hsame]; exact .ok .nil
  | cons item rest ih =>
      obtain ⟨other, more, rfl, hitem, hrest⟩ := sameItems_cons.mp hsame
      refine (h _ _ hitem).bind fun part part' hpart => ?_
      exact (ih hrest).bind fun parts parts' hparts => .ok (.cons hpart hparts)

theorem list_respects (hrefl : ∀ part, R part part) (h : decode.Respects R) :
    (list decode).Respects (List.Forall₂ R) :=
  respects_of_forms (fun _ => List.forall₂_same.mpr fun part _ => hrefl part)
    (fun _ _ => .error _ _) (fun _ _ => each_respects h) fun _ _ _ => .error _ _

theorem list_respects_eq (h : decode.Respects Eq) : (list decode).Respects Eq := by
  intro a b hsame
  refine (list_respects (fun _ => rfl) h a b hsame).imp fun _ _ hparts => ?_
  rwa [List.forall₂_eq_eq_eq] at hparts

/-! ## Records -/

theorem member_agrees (h : decode.Respects R) {missing : α} (hmissing : R missing missing)
    (name : String) {members others : Keyed Json} (hsame : sameMembers members others = true) :
    Agrees R (member members name missing decode) (member others name missing decode) := by
  have hat : SameAt (Keyed.get? name members) (Keyed.get? name others) := sameAt_get? hsame
  unfold member
  rcases hat with ⟨hnone, hnone'⟩ | ⟨value, other, hsome, hsome', hvalue⟩
  · rw [hnone, hnone']
    exact .ok hmissing
  · rw [hsome, hsome']
    exact h value other hvalue

theorem item_agrees (h : decode.Respects R) {missing : α} (hmissing : R missing missing)
    (position : Nat) {items others : List Json} (hsame : sameItems items others = true) :
    Agrees R (item items position missing decode) (item others position missing decode) := by
  unfold item
  rcases sameAt_getElem? hsame position with
    ⟨hnone, hnone'⟩ | ⟨value, other, hsome, hsome', hvalue⟩
  · rw [hnone, hnone']
    exact .ok hmissing
  · rw [hsome, hsome']
    exact h value other hvalue

theorem record_respects {name : String} {fields : Nat} {ofMembers : Keyed Json → Except Mismatch α}
    {ofItems : List Json → Except Mismatch α} (hrefl : ∀ value, R value value)
    (hmembers : ∀ members others, sameMembers members others = true →
      Agrees R (ofMembers members) (ofMembers others))
    (hitems : ∀ items others, sameItems items others = true →
      Agrees R (ofItems items) (ofItems others)) :
    Decoder.Respects (record name fields ofMembers ofItems) R := by
  refine respects_of_forms hrefl (fun _ _ => .error _ _) ?_ hmembers
  intro items others hsame
  refine (hitems items others hsame).bind fun value value' hvalue => ?_
  have hroom : noMoreThan fields others = noMoreThan fields items := by
    unfold noMoreThan
    rw [length_eq_of_sameItems hsame]
  rw [hroom]
  exact Agrees.bind_eq (.of_eq (fun _ => rfl) _) fun _ => .ok hvalue

theorem objectRecord_respects {name : String} {ofMembers : Keyed Json → Except Mismatch α}
    (hrefl : ∀ value, R value value)
    (hmembers : ∀ members others, sameMembers members others = true →
      Agrees R (ofMembers members) (ofMembers others)) :
    Decoder.Respects (objectRecord name ofMembers) R :=
  respects_of_forms hrefl (fun _ _ => .error _ _) (fun _ _ _ => .error _ _) hmembers

end Decode

/-- Content that is the same is read alike, and no content is like an empty object. -/
theorem decodeContent_agrees {α : Type} {R : α → α → Prop} {decode : Decoder α}
    (h : decode.Respects R) (kind : String) {a b : Json} (hsame : a.same b = true) :
    Agrees R (decodeContent kind decode a) (decodeContent kind decode b) := by
  have hfilled : ∀ content : Json, decodeContent kind decode content
      = (decode (if content.same .null then .object [] else content)).mapError (⟨kind, ·⟩) := by
    intro content
    cases content <;> rfl
  rw [hfilled, hfilled]
  refine (h _ _ ?_).mapError
  by_cases hnull : a.same .null = true
  · rw [if_pos hnull, if_pos (Json.same_trans (Json.same_symm hsame) hnull)]
    exact Json.same_refl _
  · rw [if_neg hnull, if_neg fun hb => hnull (Json.same_trans hsame hb)]
    exact hsame

/-! ## The views -/

section Views

open Json Decode

variable {members others : Keyed Json}

theorem optional_text_respects : (optional text).Respects Eq := optional_respects_eq text_respects

theorem Routing.decode_agrees (hsame : sameMembers members others = true) :
    Agrees Eq (Routing.decode members) (Routing.decode others) := by
  have hmode : (optional ExecutionMode.decode).Respects Eq :=
    optional_respects_eq (choice_respects _ _ _)
  refine (member_agrees hmode rfl _ hsame).bind_eq fun executionMode => ?_
  refine (member_agrees optional_text_respects rfl _ hsame).bind_eq fun inputField => ?_
  refine (member_agrees optional_text_respects rfl _ hsame).bind_eq fun outputPath => ?_
  exact (member_agrees (optional_respects_eq flag_respects) rfl _ hsame).bind_eq fun _ => .ok rfl

theorem ExpressionRow.decode_respects : ExpressionRow.decode.Respects Eq := by
  refine record_respects (fun _ => rfl) ?_ ?_
  · intro members others hsame
    refine (member_agrees optional_text_respects rfl _ hsame).bind_eq fun id => ?_
    refine (member_agrees optional_text_respects rfl _ hsame).bind_eq fun key => ?_
    exact (member_agrees optional_text_respects rfl _ hsame).bind_eq fun _ => .ok rfl
  · intro items others hsame
    refine (item_agrees optional_text_respects rfl _ hsame).bind_eq fun id => ?_
    refine (item_agrees optional_text_respects rfl _ hsame).bind_eq fun key => ?_
    exact (item_agrees optional_text_respects rfl _ hsame).bind_eq fun _ => .ok rfl

theorem ExpressionContent.decode_respects : ExpressionContent.decode.Respects Eq := by
  refine objectRecord_respects (fun _ => rfl) fun members others hsame => ?_
  have hrows := list_respects_eq ExpressionRow.decode_respects
  refine (member_agrees hrows rfl _ hsame).bind_eq fun expressions => ?_
  exact (Routing.decode_agrees hsame).bind_eq fun _ => .ok rfl

/-- The reader of a member that has to be there. -/
theorem required_text_respects : Decoder.Respects (fun value => (text value).map some) Eq :=
  fun _ _ h => (text_respects _ _ h).map fun _ _ => congrArg some

theorem TableColumn.decode_respects : TableColumn.decode.Respects Eq := by
  refine record_respects (fun _ => rfl) ?_ ?_
  · intro members others hsame
    refine (member_agrees optional_text_respects rfl _ hsame).bind_eq fun field => ?_
    refine (member_agrees required_text_respects rfl _ hsame).bind_eq fun id => ?_
    exact (member_agrees optional_text_respects rfl _ hsame).bind_eq fun _ => .of_eq (fun _ => rfl) _
  · intro items others hsame
    cases items with
    | nil => rw [sameItems_nil.mp hsame]; exact .error _ _
    | cons first rest =>
        obtain ⟨_, _, rfl, hfirst, _⟩ := sameItems_cons.mp hsame
        refine (text_respects _ _ hfirst).bind_eq fun id => ?_
        refine (item_agrees optional_text_respects rfl _ hsame).bind_eq fun name => ?_
        exact (item_agrees optional_text_respects rfl _ hsame).bind_eq fun _ => .ok rfl

/-- Contents of decision tables that differ in the cells of their rules at most, and those are the
same. -/
structure DecisionTableContent.Alike (a b : DecisionTableContent) : Prop where
  hitPolicy : a.hitPolicy = b.hitPolicy
  inputs : a.inputs = b.inputs
  outputs : a.outputs = b.outputs
  routing : a.routing = b.routing
  rules : List.Forall₂ (fun rule rule' => sameMembers rule rule' = true) a.rules b.rules

theorem DecisionTableContent.decode_respects : DecisionTableContent.decode.Respects Alike := by
  refine objectRecord_respects (fun content =>
    ⟨rfl, rfl, rfl, rfl, List.forall₂_same.mpr fun rule _ => sameMembers_refl rule⟩) ?_
  intro members others hsame
  have hpolicy : (optional HitPolicy.decode).Respects Eq := optional_respects_eq (choice_respects _ _ _)
  have hcolumns := list_respects_eq TableColumn.decode_respects
  have hrules := list_respects sameMembers_refl map_respects
  refine (member_agrees hpolicy rfl _ hsame).bind_eq fun hitPolicy => ?_
  refine (member_agrees hcolumns rfl _ hsame).bind_eq fun inputs => ?_
  refine (member_agrees hcolumns rfl _ hsame).bind_eq fun outputs => ?_
  refine (member_agrees hrules .nil _ hsame).bind fun rules rules' heach => ?_
  exact (Routing.decode_agrees hsame).bind_eq fun routing => .ok ⟨rfl, rfl, rfl, rfl, heach⟩

theorem SwitchStatement.decode_respects : SwitchStatement.decode.Respects Eq := by
  refine record_respects (fun _ => rfl) ?_ ?_
  · intro members others hsame
    refine (member_agrees optional_text_respects rfl _ hsame).bind_eq fun condition => ?_
    exact (member_agrees required_text_respects rfl _ hsame).bind_eq fun _ => .of_eq (fun _ => rfl) _
  · intro items others hsame
    cases items with
    | nil => rw [sameItems_nil.mp hsame]; exact .error _ _
    | cons first rest =>
        obtain ⟨_, _, rfl, hfirst, _⟩ := sameItems_cons.mp hsame
        refine (text_respects _ _ hfirst).bind_eq fun id => ?_
        exact (item_agrees optional_text_respects rfl _ hsame).bind_eq fun _ => .ok rfl

theorem SwitchContent.decode_respects : SwitchContent.decode.Respects Eq := by
  have hpolicy : (optional HitPolicy.decode).Respects Eq := optional_respects_eq (choice_respects _ _ _)
  have hstatements := list_respects_eq SwitchStatement.decode_respects
  refine record_respects (fun _ => rfl) ?_ ?_
  · intro members others hsame
    refine (member_agrees hpolicy rfl _ hsame).bind_eq fun hitPolicy => ?_
    exact (member_agrees hstatements rfl _ hsame).bind_eq fun _ => .ok rfl
  · intro items others hsame
    refine (item_agrees hpolicy rfl _ hsame).bind_eq fun hitPolicy => ?_
    exact (item_agrees hstatements rfl _ hsame).bind_eq fun _ => .ok rfl

theorem FunctionContent.decode_respects : FunctionContent.decode.Respects Eq := by
  refine respects_of_forms (fun _ => rfl) (fun _ _ => .error _ _) (fun _ _ _ => .error _ _) ?_
  intro members others hsame
  have hat : SameAt (Keyed.get? "source" members) (Keyed.get? "source" others) := sameAt_get? hsame
  unfold decode
  dsimp only
  rcases hat with ⟨hnone, hnone'⟩ | ⟨value, other, hsome, hsome', hvalue⟩
  · rw [hnone, hnone']
    exact .ok rfl
  · rw [hsome, hsome']
    rcases same_cases hvalue with rfl | ⟨_, _, rfl, rfl⟩ | ⟨_, _, rfl, rfl, _⟩ | ⟨_, _, rfl, rfl, _⟩
    · exact .of_eq (fun _ => rfl) _
    all_goals exact .error _ _

theorem DecisionContent.decode_respects : DecisionContent.decode.Respects Eq := by
  refine objectRecord_respects (fun _ => rfl) fun members others hsame => ?_
  refine (member_agrees optional_text_respects rfl _ hsame).bind_eq fun key => ?_
  exact (Routing.decode_agrees hsame).bind_eq fun _ => .ok rfl

theorem SchemaContent.decode_respects : SchemaContent.decode.Respects Eq := by
  refine record_respects (fun _ => rfl) ?_ ?_
  · intro members others hsame
    exact (member_agrees optional_text_respects rfl _ hsame).bind_eq fun _ => .ok rfl
  · intro items others hsame
    exact (item_agrees optional_text_respects rfl _ hsame).bind_eq fun _ => .ok rfl

/-- Contents of custom nodes with configurations that are the same. -/
structure CustomContent.Alike (a b : CustomContent) : Prop where
  kind : a.kind = b.kind
  config : Option.Rel (fun value other => value.same other = true) a.config b.config

theorem CustomContent.decode_respects : CustomContent.decode.Respects Alike := by
  have hconfig : (optional anything).Respects
      (Option.Rel fun value other => value.same other = true) :=
    optional_respects fun _ _ hsame => .ok hsame
  refine record_respects ?_ ?_ ?_
  · intro ⟨kind, config⟩
    refine ⟨rfl, ?_⟩
    cases config with
    | none => exact .none
    | some value => exact .some (same_refl value)
  · intro members others hsame
    refine (member_agrees hconfig .none _ hsame).bind fun config config' hrel => ?_
    exact (member_agrees optional_text_respects rfl _ hsame).bind_eq fun _ => .ok ⟨rfl, hrel⟩
  · intro items others hsame
    refine (item_agrees optional_text_respects rfl _ hsame).bind_eq fun kind => ?_
    exact (item_agrees hconfig .none _ hsame).bind fun _ _ hrel => .ok ⟨rfl, hrel⟩

end Views

end DecisionGraph
