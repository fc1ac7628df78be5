import DecisionGraph.Expression.Typing
import DecisionGraph.Proofs.Shape.Documents

/-!
# The shapes that are inferred for expressions

Under a normal root shape every expression has a normal shape, whatever `#` stands for, if that is normal,
too (`Expr.normal_typeIn`). The induction is on the expression and runs for all items at once, since the
body of a closure is typed with the items of its collection.

With it **the normal form is kept by everything that makes shapes** (`Shape.normal_form`).
-/

namespace DecisionGraph

/-- If there is a result, it has the property. -/
def Gives {ε α : Type} (result : Except ε α) (p : α → Prop) : Prop := ∀ value, result = .ok value → p value

section Gives

variable {ε α β : Type} {p : α → Prop} {q : β → Prop}

theorem gives_ok {value : α} (h : p value) : Gives (.ok value : Except ε α) p := by
  rintro _ ⟨⟩
  exact h

theorem gives_error {error : ε} : Gives (.error error) p := nofun

theorem Gives.bind {result : Except ε α} {f : α → Except ε β} (h : Gives result p)
    (hf : ∀ value, p value → Gives (f value) q) : Gives (result >>= f) q := by
  cases result with
  | error e => exact gives_error
  | ok value => exact hf value (h value rfl)

theorem Gives.map {result : Except ε α} {f : α → β} (h : Gives result p)
    (hf : ∀ value, p value → q (f value)) : Gives (result.map f) q := by
  cases result with
  | error e => exact gives_error
  | ok value => exact gives_ok (hf value (h value rfl))

end Gives

open Shape

theorem Literal.normal_shape (value : Literal) : Normal value.shape := by
  cases value <;> exact .scalar _

theorem Shape.Normal.nonNull {shape : Shape} (h : Normal shape) : Normal shape.nonNull := by
  cases h with
  | union _ _ _ hmembers =>
      exact .oneOf fun member hmember => hmembers member (List.mem_of_mem_filter hmember)
  | any => exact .any
  | scalar kind => exact .scalar kind
  | array hitem => exact .array hitem
  | object hfields => exact .object hfields

theorem BinaryOp.normal_result (op : BinaryOp) {left right : Shape} (hleft : Normal left)
    (hright : Normal right) : Gives (op.result left right) Normal := by
  unfold BinaryOp.result
  split
  · exact gives_ok (.scalar .text)
  split
  · unfold BinaryOp.arithmeticResult
    split
    · exact gives_ok .any
    split
    · exact gives_error
    split
    · exact gives_error
    · exact gives_ok (.scalar .number)
  split
  · exact gives_ok (.oneOf (List.forall_mem_cons.mpr ⟨hleft.nonNull, List.forall_mem_singleton.mpr hright⟩))
  · exact gives_ok (.scalar .boolean)

theorem UnaryOp.normal_result (op : UnaryOp) (operand : Shape) : Gives (op.result operand) Normal := by
  cases op with
  | not => exact gives_ok (.scalar .boolean)
  | negate =>
      unfold UnaryOp.result
      dsimp only
      split
      · exact gives_ok .any
      split
      · exact gives_ok (.scalar .number)
      · exact gives_error

theorem Shape.Normal.values {fields : Keyed Shape} (h : ∀ field ∈ fields, Normal field.2) :
    Normal (.oneOf (Keyed.values fields)) :=
  .oneOf (List.forall_mem_map.mpr h)

theorem Shape.Normal.index {target : Shape} (h : Normal target) (position : Shape) :
    Normal (Expr.indexShape target position) := by
  unfold Expr.indexShape
  split
  · cases h with
    | object hfields =>
        split
        · exact .values hfields
        · exact .any
  · exact h.step (.index 0)

/-- The shape that a function returns whatever its arguments are is a scalar or an array of scalars. -/
def Returns.isPlain : Returns → Bool
  | .always (.scalar _) | .always (.array (.scalar _)) => true
  | .always _ => false
  | _ => true

theorem Builtin.isPlain_returns : ∀ function ∈ Builtin.all, function.returns.isPlain = true := by decide

theorem Returns.normal_always {returns : Returns} (h : returns.isPlain = true) {shape : Shape}
    (hreturns : returns = .always shape) : Normal shape := by
  subst hreturns
  cases shape with
  | scalar kind => exact .scalar kind
  | array item =>
      cases item with
      | scalar kind => exact .array (.scalar kind)
      | _ => cases h
  | _ => cases h

theorem Closure.normal_shape (kind : Closure) {collection body : Shape} (hcollection : Normal collection)
    (hbody : Normal body) : Normal (kind.shape collection body) := by
  cases kind with
  | map => exact .array hbody
  | filter =>
      cases hcollection with
      | array hitem => exact .array hitem
      | _ => exact .array .any
  | count => exact .scalar .number
  | test => exact .scalar .boolean

theorem Returns.normal_shape {returns : Returns} (hplain : returns.isPlain = true) {args : List Shape}
    (hargs : ∀ arg ∈ args, Normal arg) : Normal (returns.shape args) := by
  have hfirst : Normal (args.headD .any) := by
    cases args with
    | nil => exact .any
    | cons first rest => exact hargs first (List.mem_cons_self ..)
  cases returns with
  | always shape => exact Returns.normal_always hplain rfl
  | closure _ => exact .any
  | values =>
      unfold Returns.shape
      dsimp only
      generalize args.headD .any = first at hfirst
      cases hfirst with
      | object hfields => exact .array (.values hfields)
      | _ => exact .array .any
  | flattened =>
      unfold Returns.shape Shape.flatten
      dsimp only
      have helement := hfirst.element
      split
      · rename_i item heq
        exact heq ▸ helement
      · exact .array helement

namespace Expr

variable {root : Shape}

mutual

/-- **Under a normal root shape every expression that has a shape has a normal one.** -/
theorem normal_typeIn (hroot : Normal root) :
    ∀ (expr : Expr) {item : Shape}, Normal item → Gives (typeIn root item expr) Normal
  | .literal value, _, _ => gives_ok value.normal_shape
  | .identifier name, _, _ => gives_ok (hroot.step (.key name))
  | .pointer, _, hitem => gives_ok hitem
  | .member target name, _, hitem =>
    (normal_typeIn hroot target hitem).map fun _ h => h.step (.key name)
  | .index target position, item, hitem => by
    rw [typeIn]
    refine (normal_typeIn hroot target hitem).bind fun target htarget => ?_
    split
    · exact gives_ok (htarget.step _)
    · exact (normal_typeIn hroot position hitem).map fun position _ => htarget.index position
  | .array items, _, hitem => (normal_typesIn hroot items hitem).map fun _ h => .array (.oneOf h)
  | .object fields, _, hitem => (normal_fieldTypesIn hroot fields hitem).map fun _ h =>
      .object fun field hfield => h field (Keyed.mem_of_mem_ofList hfield)
  | .unary op operand, _, hitem =>
    (normal_typeIn hroot operand hitem).bind fun operand _ => op.normal_result operand
  | .binary op left right, item, hitem => by
    rw [typeIn]
    refine (normal_typeIn hroot left hitem).bind fun left hleft => ?_
    exact (normal_typeIn hroot right hitem).bind fun right hright => op.normal_result hleft hright
  | .conditional condition yes no, item, hitem => by
    rw [typeIn]
    refine (normal_typeIn hroot condition hitem).bind fun _ _ => ?_
    refine (normal_typeIn hroot yes hitem).bind fun yes hyes => ?_
    refine (normal_typeIn hroot no hitem).bind fun no hno => ?_
    exact gives_ok (.oneOf (List.forall_mem_cons.mpr ⟨hyes, List.forall_mem_singleton.mpr hno⟩))
  | .call name args, item, hitem => by
    rw [typeIn]
    split
    · exact gives_error
    · rename_i function hfind
      have hplain := Builtin.isPlain_returns function (List.mem_of_find?_eq_some hfind)
      split
      · split
        · rename_i kind collection body _ _
          refine (normal_typeIn hroot collection hitem).bind fun collection hcollection => ?_
          refine (normal_typeIn hroot body hcollection.element).bind fun body hbody => ?_
          exact gives_ok (kind.normal_shape hcollection hbody)
        · exact (normal_typesIn hroot _ hitem).map fun _ hargs => Returns.normal_shape hplain hargs
      · exact gives_error

theorem normal_typesIn (hroot : Normal root) : ∀ (items : List Expr) {item : Shape}, Normal item →
    Gives (typesIn root item items) fun shapes => ∀ shape ∈ shapes, Normal shape
  | [], _, _ => gives_ok fun _ hshape => absurd hshape List.not_mem_nil
  | expr :: rest, item, hitem => by
    rw [typesIn]
    refine (normal_typeIn hroot expr hitem).bind fun shape hshape => ?_
    refine (normal_typesIn hroot rest hitem).bind fun shapes hshapes => ?_
    exact gives_ok (List.forall_mem_cons.mpr ⟨hshape, hshapes⟩)

theorem normal_fieldTypesIn (hroot : Normal root) : ∀ (fields : List (String × Expr)) {item : Shape},
    Normal item → Gives (fieldTypesIn root item fields) fun shapes => ∀ field ∈ shapes, Normal field.2
  | [], _, _ => gives_ok fun _ hfield => absurd hfield List.not_mem_nil
  | (key, value) :: rest, item, hitem => by
    rw [fieldTypesIn]
    refine (normal_typeIn hroot value hitem).bind fun shape hshape => ?_
    refine (normal_fieldTypesIn hroot rest hitem).bind fun shapes hshapes => ?_
    exact gives_ok (List.forall_mem_cons.mpr ⟨hshape, hshapes⟩)

end

end Expr

/-- Under a normal root shape every written expression that has a shape has a normal one. -/
theorem normal_typeOf {root : Shape} (hroot : Normal root) (source : String) :
    Gives (typeOf root source) Normal := by
  have hparse : Gives (parse source) fun _ => True := fun _ _ => trivial
  exact hparse.bind fun expr _ => expr.normal_typeIn hroot .any

/-- **The normal form is an invariant.** Normal shapes are what taking one of several shapes, merging two,
following a path, writing along a path, taking the items of an array, wrapping in an array and typing an
expression make of normal shapes, and what sample values and schemas give; these are no deeper than
`Shape.maxDepth`. -/
theorem Shape.normal_form :
    (∀ shapes : List Shape, (∀ shape ∈ shapes, Normal shape) → Normal (oneOf shapes)) ∧
    (∀ first second : Shape, Normal first → Normal second → Normal (merge first second)) ∧
    (∀ shape segment, Normal shape → Normal (step segment shape)) ∧
    (∀ shape path, Normal shape → Normal (getAt path shape)) ∧
    (∀ shape value path, Normal shape → Normal value → Normal (setAt path shape value)) ∧
    (∀ shape : Shape, Normal shape → Normal (element shape) ∧ Normal (.array shape)) ∧
    (∀ root source shape, Normal root → typeOf root source = .ok shape → Normal shape) ∧
    (∀ (root item shape : Shape) (expr : Expr), Normal root → Normal item →
      expr.typeIn root item = .ok shape → Normal shape) ∧
    (∀ value : Json, Normal (ofSample value) ∧ (ofSample value).depth ≤ maxDepth) ∧
    (∀ document : Json, Normal (ofSchema document) ∧ (ofSchema document).depth ≤ maxDepth) := by
  refine ⟨fun _ => .oneOf, fun _ _ h => h.merge, fun _ segment h => h.step segment,
    fun _ path h => h.getAt path, fun _ _ path h hvalue => h.setAt hvalue path,
    fun _ h => ⟨h.element, .array h⟩, fun _ source shape h => normal_typeOf h source shape,
    fun _ _ shape expr h hitem => expr.normal_typeIn h hitem shape, fun value => ?_, fun document => ?_⟩
  · exact ⟨(normalWithin_ofSample value).normal, (normalWithin_ofSample value).depth_le⟩
  · exact ⟨(normalWithin_ofSchema document).normal, (normalWithin_ofSchema document).depth_le⟩

/-- A field that is `null` in one object and one of two scalars in the other. -/
theorem Shape.normal_form_merged_field :
    Normal (merge (.object [("a", .null)]) (.object [("a", .union [.number, .text])])) ∧
      merge (.object [("a", .null)]) (.object [("a", .union [.number, .text])]) =
        .object [("a", .union [.null, .number, .text])] := by
  have hunion : Normal (.union [.number, .text]) :=
    .union (by decide) (List.pairwise_pair.mpr rfl) (by simp [IsAlternative])
      (List.forall_mem_cons.mpr ⟨.scalar _, List.forall_mem_singleton.mpr (.scalar _)⟩)
  refine ⟨normal_form.2.1 _ _ (.object ?_) (.object ?_), rfl⟩
  · exact List.forall_mem_singleton.mpr (.scalar .null)
  · exact List.forall_mem_singleton.mpr hunion

end DecisionGraph
