import DecisionGraph.Proofs.Expression.Everywhere
import DecisionGraph.Proofs.Shape.Alternatives
import DecisionGraph.Proofs.Shape.Inferred

/-!
# Typing is strict

An expression has a shape only if all its parts have one, whatever is made of their shapes: the operands of a
comparison, the condition of a conditional and an index that the target has no use for are typed, too. The
body of a closure stands in a scope of its own, in which `#` is an item of the collection. `EverywhereIn` is
`Everywhere` with these scopes.

So what typing refuses stands nowhere in an expression that has a shape (`Expr.typeIn_strict`). What it
refuses is said of normal shapes, for which "arithmetic" and "text" have a simple meaning
(`Shape.Normal.consistsOf_iff`, `Shape.Normal.isText_iff`).
-/

namespace DecisionGraph

/-! ## What operands can be -/

namespace Shape

/-- The shape is a scalar of one of these kinds or a union of such scalars. Nothing is known about `any`, and
it is none. -/
def ConsistsOnlyOf (kinds : List Scalar) (shape : Shape) : Prop :=
  ∀ part ∈ shape.alternatives, ∃ kind ∈ kinds, part = .scalar kind

section Alternatives

variable {kinds : List Scalar} {shape : Shape}

theorem consistsOf_iff_alternatives :
    shape.consistsOf kinds = true ↔ ∀ part ∈ shape.alternatives, part.consistsOf kinds = true := by
  have hmembers (members : List Shape) :
      allConsistOf kinds members = true ↔ ∀ member ∈ members, member.consistsOf kinds = true := by
    induction members with
    | nil => simp [allConsistOf]
    | cons member rest ih => simp [allConsistOf, ih]
  cases shape with
  | union members => exact hmembers members
  | any | scalar | array | object => simp [alternatives]

theorem isText_iff_alternatives :
    shape.isText = true ↔ ∀ part ∈ shape.alternatives, part.isText = true := by
  have hmembers (members : List Shape) :
      allText members = true ↔ ∀ member ∈ members, member.isText = true := by
    induction members with
    | nil => simp [allText]
    | cons member rest ih => simp [allText, ih]
  cases shape with
  | union members => exact hmembers members
  | any | scalar | array | object => simp [alternatives]

theorem IsAlternative.consistsOf_iff (h : shape.IsAlternative) :
    shape.consistsOf kinds = true ↔ ∃ kind ∈ kinds, shape = .scalar kind := by
  cases shape with
  | any | union => cases h
  | scalar | array | object => simp [consistsOf]

theorem IsAlternative.isText_iff (h : shape.IsAlternative) : shape.isText = true ↔ shape = .text := by
  cases shape with
  | any | union => cases h
  | scalar | array | object => simp [isText]

theorem Normal.consistsOf_iff (h : Normal shape) :
    shape.consistsOf kinds = true ↔ shape = .any ∨ shape.ConsistsOnlyOf kinds := by
  by_cases hany : shape = .any
  · subst hany
    exact iff_of_true rfl (.inl rfl)
  · rw [or_iff_right hany, consistsOf_iff_alternatives]
    exact forall₂_congr fun part hpart => (h.alternatives hany part hpart).1.consistsOf_iff

theorem Normal.isArithmetic_iff (h : Normal shape) :
    shape.isArithmetic = true ↔ shape = .any ∨ shape.ConsistsOnlyOf [.number, .date, .null] :=
  h.consistsOf_iff

/-- In a normal union there are not two texts, so some member is none. -/
theorem Normal.isText_iff (h : Normal shape) : shape.isText = true ↔ shape = .text := by
  constructor
  · intro htext
    have hany : shape ≠ .any := by
      rintro rfl
      cases htext
    refine h.eq_of_alternatives fun part hpart => ?_
    exact (h.alternatives hany part hpart).1.isText_iff.mp (isText_iff_alternatives.mp htext part hpart)
  · rintro rfl
    rfl

end Alternatives

theorem isAny_iff {shape : Shape} : shape.isAny = true ↔ shape = .any := by
  cases shape <;> simp [isAny]

end Shape

open Shape

/-- What a minus sign can stand in front of. -/
theorem UnaryOp.negate_fits {operand shape : Shape} (hoperand : Normal operand)
    (h : UnaryOp.negate.result operand = .ok shape) :
    operand = .any ∨ operand.ConsistsOnlyOf [.number, .date, .null] := by
  rw [← hoperand.isArithmetic_iff]
  unfold UnaryOp.result at h
  dsimp only at h
  split at h
  · rename_i hany
    rw [isAny_iff.mp hany]
    rfl
  split at h
  · assumption
  · cases h

/-- What an arithmetic operator can stand between. -/
theorem BinaryOp.arithmetic_fits {op : BinaryOp} (harithmetic : op.isArithmetic = true)
    {left right shape : Shape} (hleft : Normal left) (hright : Normal right)
    (h : op.result left right = .ok shape) :
    left = .any ∨ right = .any ∨ (op = .add ∧ (left = .text ∨ right = .text))
      ∨ (left.ConsistsOnlyOf [.number, .date, .null] ∧ right.ConsistsOnlyOf [.number, .date, .null]) := by
  unfold BinaryOp.result at h
  split at h
  · rename_i htext
    rw [hleft.isText_iff, hright.isText_iff] at htext
    exact .inr (.inr (.inl htext))
  rw [BinaryOp.arithmeticResult] at h
  split at h
  · rename_i hany
    rw [Bool.or_eq_true, isAny_iff, isAny_iff] at hany
    rcases hany with hany | hany
    · exact .inl hany
    · exact .inr (.inl hany)
  rename_i hany
  rw [Bool.or_eq_true, isAny_iff, isAny_iff] at hany
  obtain ⟨hany, hany'⟩ := not_or.mp hany
  split at h
  · cases h
  split at h
  · cases h
  rename_i hfits hfits'
  rw [Bool.not_eq_true, Bool.not_eq_false'] at hfits hfits'
  have hleft' := (hleft.isArithmetic_iff.mp hfits).resolve_left hany
  have hright' := (hright.isArithmetic_iff.mp hfits').resolve_left hany'
  exact .inr (.inr (.inr ⟨hleft', hright'⟩))

/-- A function that is found is one of the language, and it has the name. -/
theorem Builtin.mem_of_find? {name : String} {function : Builtin} (h : Builtin.find? name = some function) :
    function ∈ Builtin.all ∧ function.name = name := by
  have hname := List.find?_some h
  rw [decide_eq_true_iff] at hname
  exact ⟨List.mem_of_find?_eq_some h, hname⟩

namespace Expr

/-! ## Everywhere, with scopes -/

/-- Whether a call of this name runs its second argument for the items of the first. -/
def runsClosure (name : String) : Bool :=
  match Builtin.find? name with
  | some ⟨_, _, _, .closure _⟩ => true
  | _ => false

mutual

/-- The property holds of the expression and of all its parts, each of them with the shape that `#` has
where it stands. The second argument of a closure is in the scope of the items of the first, so this one has
to have a shape. -/
def EverywhereIn (root : Shape) (p : Shape → Expr → Prop) (item : Shape) : Expr → Prop
  | .literal value => p item (.literal value)
  | .identifier name => p item (.identifier name)
  | .pointer => p item .pointer
  | .member target name => p item (.member target name) ∧ EverywhereIn root p item target
  | .index target position =>
    p item (.index target position) ∧ EverywhereIn root p item target ∧ EverywhereIn root p item position
  | .array items => p item (.array items) ∧ EverywhereInItemsIn root p item items
  | .object fields => p item (.object fields) ∧ EverywhereInFieldsIn root p item fields
  | .unary op operand => p item (.unary op operand) ∧ EverywhereIn root p item operand
  | .binary op left right =>
    p item (.binary op left right) ∧ EverywhereIn root p item left ∧ EverywhereIn root p item right
  | .conditional condition yes no =>
    p item (.conditional condition yes no) ∧ EverywhereIn root p item condition
      ∧ EverywhereIn root p item yes ∧ EverywhereIn root p item no
  | .call name args =>
    p item (.call name args) ∧
      match runsClosure name, args with
      | true, [collection, body] =>
        EverywhereIn root p item collection
          ∧ ∃ shape, collection.typeIn root item = .ok shape ∧ EverywhereIn root p shape.element body
      | _, args => EverywhereInItemsIn root p item args

def EverywhereInItemsIn (root : Shape) (p : Shape → Expr → Prop) (item : Shape) : List Expr → Prop
  | [] => True
  | expr :: rest => EverywhereIn root p item expr ∧ EverywhereInItemsIn root p item rest

def EverywhereInFieldsIn (root : Shape) (p : Shape → Expr → Prop) (item : Shape) :
    List (String × Expr) → Prop
  | [] => True
  | (_, value) :: rest => EverywhereIn root p item value ∧ EverywhereInFieldsIn root p item rest

end

variable {root : Shape}

mutual

/-- What holds everywhere whatever `#` stands for holds everywhere: the scopes leave no part out. -/
theorem everywhere_of_in {q : Expr → Prop} :
    ∀ (expr : Expr) {item : Shape}, expr.EverywhereIn root (fun _ => q) item → expr.Everywhere q
  | .literal _, _, h | .identifier _, _, h | .pointer, _, h => h
  | .member target _, _, h => ⟨h.1, everywhere_of_in target h.2⟩
  | .index target position, _, h => ⟨h.1, everywhere_of_in target h.2.1, everywhere_of_in position h.2.2⟩
  | .array items, _, h => ⟨h.1, everywhereInItems_of_in items h.2⟩
  | .object fields, _, h => ⟨h.1, everywhereInFields_of_in fields h.2⟩
  | .unary _ operand, _, h => ⟨h.1, everywhere_of_in operand h.2⟩
  | .binary _ left right, _, h => ⟨h.1, everywhere_of_in left h.2.1, everywhere_of_in right h.2.2⟩
  | .conditional condition yes no, _, h =>
    ⟨h.1, everywhere_of_in condition h.2.1, everywhere_of_in yes h.2.2.1, everywhere_of_in no h.2.2.2⟩
  | .call name args, _, h => by
    unfold EverywhereIn at h
    obtain ⟨hcall, hargs⟩ := h
    refine ⟨hcall, ?_⟩
    split at hargs
    · obtain ⟨hcollection, _, -, hbody⟩ := hargs
      exact ⟨everywhere_of_in _ hcollection, everywhere_of_in _ hbody, trivial⟩
    · exact everywhereInItems_of_in _ hargs

theorem everywhereInItems_of_in {q : Expr → Prop} : ∀ (items : List Expr) {item : Shape},
    EverywhereInItemsIn root (fun _ => q) item items → EverywhereInItems q items
  | [], _, _ => trivial
  | expr :: rest, _, h => ⟨everywhere_of_in expr h.1, everywhereInItems_of_in rest h.2⟩

theorem everywhereInFields_of_in {q : Expr → Prop} : ∀ (fields : List (String × Expr)) {item : Shape},
    EverywhereInFieldsIn root (fun _ => q) item fields → EverywhereInFields q fields
  | [], _, _ => trivial
  | (_, value) :: rest, _, h => ⟨everywhere_of_in value h.1, everywhereInFields_of_in rest h.2⟩

end

/-! ## Whatever has a shape has been typed everywhere -/

/-- The property holds of every expression that has a shape, whatever normal shape `#` has. -/
def HoldsOfTyped (root : Shape) (p : Shape → Expr → Prop) : Prop :=
  ∀ {item : Shape} {expr : Expr} {shape : Shape}, Normal item → expr.typeIn root item = .ok shape →
    p item expr

variable {p : Shape → Expr → Prop}

theorem eq_literal_of_writtenStep? {position : Expr} {segment : Segment}
    (h : writtenStep? position = some segment) : ∃ value, position = .literal value := by
  cases position with
  | literal value => exact ⟨value, rfl⟩
  | _ => cases h

theorem runsClosure_iff {name : String} {function : Builtin} (h : Builtin.find? name = some function) :
    runsClosure name = true ↔ ∃ kind, function.returns = .closure kind := by
  rw [runsClosure, h]
  obtain ⟨_, _, _, returns⟩ := function
  cases returns <;> simp

mutual

/-- **What holds of every expression that has a shape holds everywhere in it.** -/
theorem everywhereIn_of_typeIn (hroot : Normal root) (hp : HoldsOfTyped root p) :
    ∀ (expr : Expr) {item shape : Shape}, Normal item →
    expr.typeIn root item = .ok shape → expr.EverywhereIn root p item
  | .literal _, _, _, hitem, h | .identifier _, _, _, hitem, h | .pointer, _, _, hitem, h => hp hitem h
  | .member target _, _, _, hitem, h => by
    refine ⟨hp hitem h, ?_⟩
    rw [typeIn] at h
    obtain ⟨_, htarget, -⟩ := Parser.map_eq_ok.mp h
    exact everywhereIn_of_typeIn hroot hp target hitem htarget
  | .index target position, _, _, hitem, h => by
    refine ⟨hp hitem h, ?_⟩
    rw [typeIn] at h
    obtain ⟨_, htarget, h⟩ := Parser.bind_eq_ok.mp h
    refine ⟨everywhereIn_of_typeIn hroot hp target hitem htarget, ?_⟩
    split at h
    · -- the index is not typed, but it has a shape
      rename_i hstep
      obtain ⟨value, rfl⟩ := eq_literal_of_writtenStep? hstep
      exact hp hitem rfl
    · obtain ⟨_, hposition, -⟩ := Parser.map_eq_ok.mp h
      exact everywhereIn_of_typeIn hroot hp position hitem hposition
  | .array items, _, _, hitem, h => by
    refine ⟨hp hitem h, ?_⟩
    rw [typeIn] at h
    obtain ⟨_, hitems, -⟩ := Parser.map_eq_ok.mp h
    exact everywhereInItemsIn_of_typesIn hroot hp items hitem hitems
  | .object fields, _, _, hitem, h => by
    refine ⟨hp hitem h, ?_⟩
    rw [typeIn] at h
    obtain ⟨_, hfields, -⟩ := Parser.map_eq_ok.mp h
    exact everywhereInFieldsIn_of_fieldTypesIn hroot hp fields hitem hfields
  | .unary _ operand, _, _, hitem, h => by
    refine ⟨hp hitem h, ?_⟩
    rw [typeIn] at h
    obtain ⟨_, hoperand, -⟩ := Parser.bind_eq_ok.mp h
    exact everywhereIn_of_typeIn hroot hp operand hitem hoperand
  | .binary _ left right, _, _, hitem, h => by
    refine ⟨hp hitem h, ?_⟩
    rw [typeIn] at h
    obtain ⟨_, hleft, h⟩ := Parser.bind_eq_ok.mp h
    obtain ⟨_, hright, -⟩ := Parser.bind_eq_ok.mp h
    exact ⟨everywhereIn_of_typeIn hroot hp left hitem hleft,
      everywhereIn_of_typeIn hroot hp right hitem hright⟩
  | .conditional condition yes no, _, _, hitem, h => by
    refine ⟨hp hitem h, ?_⟩
    rw [typeIn] at h
    obtain ⟨_, hcondition, h⟩ := Parser.bind_eq_ok.mp h
    obtain ⟨_, hyes, h⟩ := Parser.bind_eq_ok.mp h
    obtain ⟨_, hno, -⟩ := Parser.bind_eq_ok.mp h
    exact ⟨everywhereIn_of_typeIn hroot hp condition hitem hcondition,
      everywhereIn_of_typeIn hroot hp yes hitem hyes, everywhereIn_of_typeIn hroot hp no hitem hno⟩
  | .call name args, item, _, hitem, h => by
    unfold EverywhereIn
    refine ⟨hp hitem h, ?_⟩
    rw [typeIn] at h
    split at h
    · cases h
    rename_i function hfind
    split at h
    rotate_left
    · cases h
    split at h
    · rename_i kind collection body hreturns _
      obtain ⟨shape, hcollection, h⟩ := Parser.bind_eq_ok.mp h
      obtain ⟨_, hbody, -⟩ := Parser.bind_eq_ok.mp h
      have helement : Normal shape.element := (normal_typeIn hroot collection hitem shape hcollection).element
      rw [(runsClosure_iff hfind).mpr ⟨kind, hreturns⟩]
      exact ⟨everywhereIn_of_typeIn hroot hp collection hitem hcollection, shape, hcollection,
        everywhereIn_of_typeIn hroot hp body helement hbody⟩
    · rename_i hother _
      obtain ⟨_, hargs, -⟩ := Parser.map_eq_ok.mp h
      have hitems := everywhereInItemsIn_of_typesIn hroot hp _ hitem hargs
      split
      · rename_i hruns _
        obtain ⟨kind, hreturns⟩ := (runsClosure_iff hfind).mp hruns
        exact (hother kind _ _ hreturns rfl).elim
      · exact hitems

theorem everywhereInItemsIn_of_typesIn (hroot : Normal root) (hp : HoldsOfTyped root p) :
    ∀ (items : List Expr) {item : Shape} {shapes : List Shape},
    Normal item → typesIn root item items = .ok shapes → EverywhereInItemsIn root p item items
  | [], _, _, _, _ => trivial
  | expr :: rest, _, _, hitem, h => by
    rw [typesIn] at h
    obtain ⟨_, hexpr, h⟩ := Parser.bind_eq_ok.mp h
    obtain ⟨_, hrest, -⟩ := Parser.bind_eq_ok.mp h
    exact ⟨everywhereIn_of_typeIn hroot hp expr hitem hexpr,
      everywhereInItemsIn_of_typesIn hroot hp rest hitem hrest⟩

theorem everywhereInFieldsIn_of_fieldTypesIn (hroot : Normal root) (hp : HoldsOfTyped root p) :
    ∀ (fields : List (String × Expr)) {item : Shape}
    {shapes : List (String × Shape)}, Normal item → fieldTypesIn root item fields = .ok shapes →
    EverywhereInFieldsIn root p item fields
  | [], _, _, _, _ => trivial
  | (_, value) :: rest, _, _, hitem, h => by
    rw [fieldTypesIn] at h
    obtain ⟨_, hvalue, h⟩ := Parser.bind_eq_ok.mp h
    obtain ⟨_, hrest, -⟩ := Parser.bind_eq_ok.mp h
    exact ⟨everywhereIn_of_typeIn hroot hp value hitem hvalue,
      everywhereInFieldsIn_of_fieldTypesIn hroot hp rest hitem hrest⟩

end

/-! ## What is refused stands nowhere -/

/-- What typing asks of the operands of a sign or an operator where `#` is of shape `item`. -/
def OperandsFit (root item : Shape) : Expr → Prop
  | .unary .negate operand => ∃ shape, operand.typeIn root item = .ok shape
      ∧ (shape = .any ∨ shape.ConsistsOnlyOf [.number, .date, .null])
  | .binary op left right => op.isArithmetic = true →
      ∃ shape shape', left.typeIn root item = .ok shape ∧ right.typeIn root item = .ok shape'
        ∧ (shape = .any ∨ shape' = .any ∨ (op = .add ∧ (shape = .text ∨ shape' = .text))
          ∨ (shape.ConsistsOnlyOf [.number, .date, .null] ∧ shape'.ConsistsOnlyOf [.number, .date, .null]))
  | _ => True

/-- A call is one of a function of the language, with neither too few arguments nor too many. -/
def NamesBuiltin : Expr → Prop
  | .call name args =>
    ∃ function ∈ Builtin.all,
      function.name = name ∧ function.least ≤ args.length ∧ args.length ≤ function.most
  | _ => True

theorem operandsFit_of_typeIn (hroot : Normal root) :
    HoldsOfTyped root fun item expr => expr.OperandsFit root item := by
  intro item expr shape hitem h
  cases expr with
  | unary op operand =>
      rw [typeIn] at h
      obtain ⟨operandShape, hoperand, h⟩ := Parser.bind_eq_ok.mp h
      cases op with
      | not => trivial
      | negate =>
          have hnormal := normal_typeIn hroot _ hitem _ hoperand
          exact ⟨operandShape, hoperand, UnaryOp.negate_fits hnormal h⟩
  | binary op left right =>
      intro harithmetic
      rw [typeIn] at h
      obtain ⟨leftShape, hleft, h⟩ := Parser.bind_eq_ok.mp h
      obtain ⟨rightShape, hright, h⟩ := Parser.bind_eq_ok.mp h
      exact ⟨leftShape, rightShape, hleft, hright, BinaryOp.arithmetic_fits harithmetic
        (normal_typeIn hroot _ hitem _ hleft) (normal_typeIn hroot _ hitem _ hright) h⟩
  | _ => trivial

theorem namesBuiltin_of_typeIn : HoldsOfTyped root fun _ expr => expr.NamesBuiltin := by
  intro item expr shape _ h
  cases expr with
  | call name args =>
      rw [typeIn] at h
      split at h
      · cases h
      rename_i function hfind
      split at h
      · rename_i haccepts
        obtain ⟨hmem, hname⟩ := Builtin.mem_of_find? hfind
        rw [Builtin.accepts, Bool.and_eq_true, decide_eq_true_iff, decide_eq_true_iff] at haccepts
        exact ⟨function, hmem, hname, haccepts⟩
      · cases h
  | _ => trivial

/-- **Typing is strict.** Under a normal root shape, an expression that has a shape has one in all its parts,
with `#` as the scope has it, and the operands fit their operators there; and all calls in it are ones of
functions of the language, with as many arguments as they take. -/
theorem typeIn_strict {root item shape : Shape} (hroot : Normal root) (hitem : Normal item) {expr : Expr}
    (h : expr.typeIn root item = .ok shape) :
    expr.EverywhereIn root (fun item part =>
        (∃ found, part.typeIn root item = .ok found) ∧ part.OperandsFit root item) item
      ∧ expr.Everywhere NamesBuiltin := by
  have htyped : HoldsOfTyped root fun item part =>
      (∃ found, part.typeIn root item = .ok found) ∧ part.OperandsFit root item :=
    fun hitem hpart => ⟨⟨_, hpart⟩, operandsFit_of_typeIn hroot hitem hpart⟩
  exact ⟨everywhereIn_of_typeIn hroot htyped expr hitem h,
    everywhere_of_in expr (everywhereIn_of_typeIn hroot namesBuiltin_of_typeIn expr hitem h)⟩

/-- In the body of a closure the operands fit with an item of the collection for `#`. -/
theorem typeIn_strict_closure :
    let order : Shape := .object [("price", .union [.null, .number])]
    let root : Shape := .object [("orders", .array order), ("rate", .number)]
    let body : Expr := .binary .multiply (.member .pointer "price") (.unary .negate (.identifier "rate"))
    let expr : Expr := .call "map" [.identifier "orders", body]
    expr.typeIn root .any = .ok (.array .number) ∧ expr.Everywhere NamesBuiltin
      ∧ body.OperandsFit root order := by
  intro order root body expr
  have hshape : expr.typeIn root .any = .ok (.array .number) := by rfl
  have hprice : Normal (.union [.null, .number]) := .scalars (by decide)
  have horder : Normal order := .object (List.forall_mem_singleton.mpr hprice)
  have hroot : Normal root :=
    .object (List.forall_mem_cons.mpr ⟨.array horder, List.forall_mem_singleton.mpr (.scalar _)⟩)
  obtain ⟨⟨-, -, collection, hcollection, hbody⟩, hcalls⟩ := typeIn_strict hroot .any hshape
  have horders : collection = .array order := (Except.ok.inj hcollection).symm
  rw [horders] at hbody
  exact ⟨hshape, hcalls, hbody.1.2⟩

end Expr

end DecisionGraph
