import DecisionGraph.Proofs.Expression.Order

/-!
# Properties of all parts of an expression

`Expr.Everywhere` lifts a property of single nodes to trees. What holds of every subexpression that is
read from tokens of some kind holds of every item of a list and of every field of an object, if all places
where one can start find such tokens (`Items.forall`, `Fields.forall`). No reader leaves tokens behind that
it was not given, so it is enough to know this of the tokens at the front (`Behind`).
-/

namespace DecisionGraph

namespace Expr

mutual

/-- The property holds of the expression and of all its parts. -/
def Everywhere (p : Expr → Prop) : Expr → Prop
  | .literal value => p (.literal value)
  | .identifier name => p (.identifier name)
  | .pointer => p .pointer
  | .member target name => p (.member target name) ∧ Everywhere p target
  | .index target position =>
    p (.index target position) ∧ Everywhere p target ∧ Everywhere p position
  | .array items => p (.array items) ∧ EverywhereInItems p items
  | .object fields => p (.object fields) ∧ EverywhereInFields p fields
  | .unary op operand => p (.unary op operand) ∧ Everywhere p operand
  | .binary op left right => p (.binary op left right) ∧ Everywhere p left ∧ Everywhere p right
  | .conditional condition yes no =>
    p (.conditional condition yes no) ∧ Everywhere p condition ∧ Everywhere p yes ∧ Everywhere p no
  | .call name args => p (.call name args) ∧ EverywhereInItems p args

def EverywhereInItems (p : Expr → Prop) : List Expr → Prop
  | [] => True
  | item :: rest => Everywhere p item ∧ EverywhereInItems p rest

def EverywhereInFields (p : Expr → Prop) : List (String × Expr) → Prop
  | [] => True
  | (_, value) :: rest => Everywhere p value ∧ EverywhereInFields p rest

end

variable {p : Expr → Prop}

mutual

/-- What holds everywhere implies what it implies, everywhere. -/
theorem Everywhere.imp {q : Expr → Prop} (h : ∀ expr, p expr → q expr) :
    ∀ {expr : Expr}, expr.Everywhere p → expr.Everywhere q
  | .literal _, hexpr => h _ hexpr
  | .identifier _, hexpr => h _ hexpr
  | .pointer, hexpr => h _ hexpr
  | .member .., hexpr => ⟨h _ hexpr.1, hexpr.2.imp h⟩
  | .index .., hexpr => ⟨h _ hexpr.1, hexpr.2.1.imp h, hexpr.2.2.imp h⟩
  | .array _, hexpr => ⟨h _ hexpr.1, everywhereInItems_imp h hexpr.2⟩
  | .object _, hexpr => ⟨h _ hexpr.1, everywhereInFields_imp h hexpr.2⟩
  | .unary .., hexpr => ⟨h _ hexpr.1, hexpr.2.imp h⟩
  | .binary .., hexpr => ⟨h _ hexpr.1, hexpr.2.1.imp h, hexpr.2.2.imp h⟩
  | .conditional .., hexpr => ⟨h _ hexpr.1, hexpr.2.1.imp h, hexpr.2.2.1.imp h, hexpr.2.2.2.imp h⟩
  | .call .., hexpr => ⟨h _ hexpr.1, everywhereInItems_imp h hexpr.2⟩

theorem everywhereInItems_imp {q : Expr → Prop} (h : ∀ expr, p expr → q expr) :
    ∀ {items : List Expr}, EverywhereInItems p items → EverywhereInItems q items
  | [], _ => trivial
  | _ :: _, hitems => ⟨hitems.1.imp h, everywhereInItems_imp h hitems.2⟩

theorem everywhereInFields_imp {q : Expr → Prop} (h : ∀ expr, p expr → q expr) :
    ∀ {fields : List (String × Expr)}, EverywhereInFields p fields → EverywhereInFields q fields
  | [], _ => trivial
  | (_, _) :: _, hfields => ⟨hfields.1.imp h, everywhereInFields_imp h hfields.2⟩

end

mutual

theorem Everywhere.and {q : Expr → Prop} : ∀ {expr : Expr}, expr.Everywhere p → expr.Everywhere q →
    expr.Everywhere fun expr => p expr ∧ q expr
  | .literal _, hp, hq | .identifier _, hp, hq | .pointer, hp, hq => ⟨hp, hq⟩
  | .member .., hp, hq => ⟨⟨hp.1, hq.1⟩, hp.2.and hq.2⟩
  | .index .., hp, hq => ⟨⟨hp.1, hq.1⟩, hp.2.1.and hq.2.1, hp.2.2.and hq.2.2⟩
  | .array _, hp, hq => ⟨⟨hp.1, hq.1⟩, everywhereInItems_and hp.2 hq.2⟩
  | .object _, hp, hq => ⟨⟨hp.1, hq.1⟩, everywhereInFields_and hp.2 hq.2⟩
  | .unary .., hp, hq => ⟨⟨hp.1, hq.1⟩, hp.2.and hq.2⟩
  | .binary .., hp, hq => ⟨⟨hp.1, hq.1⟩, hp.2.1.and hq.2.1, hp.2.2.and hq.2.2⟩
  | .conditional .., hp, hq =>
    ⟨⟨hp.1, hq.1⟩, hp.2.1.and hq.2.1, hp.2.2.1.and hq.2.2.1, hp.2.2.2.and hq.2.2.2⟩
  | .call .., hp, hq => ⟨⟨hp.1, hq.1⟩, everywhereInItems_and hp.2 hq.2⟩

theorem everywhereInItems_and {q : Expr → Prop} : ∀ {items : List Expr}, EverywhereInItems p items →
    EverywhereInItems q items → EverywhereInItems (fun expr => p expr ∧ q expr) items
  | [], _, _ => trivial
  | _ :: _, hp, hq => ⟨hp.1.and hq.1, everywhereInItems_and hp.2 hq.2⟩

theorem everywhereInFields_and {q : Expr → Prop} : ∀ {fields : List (String × Expr)},
    EverywhereInFields p fields → EverywhereInFields q fields →
      EverywhereInFields (fun expr => p expr ∧ q expr) fields
  | [], _, _ => trivial
  | (_, _) :: _, hp, hq => ⟨hp.1.and hq.1, everywhereInFields_and hp.2 hq.2⟩

end

theorem everywhereInItems_iff {items : List Expr} :
    EverywhereInItems p items ↔ ∀ item ∈ items, item.Everywhere p := by
  induction items with
  | nil => simp [EverywhereInItems]
  | cons item rest ih => simp [EverywhereInItems, ih]

theorem everywhereInFields_iff {fields : List (String × Expr)} :
    EverywhereInFields p fields ↔ ∀ field ∈ fields, field.2.Everywhere p := by
  induction fields with
  | nil => simp [EverywhereInFields]
  | cons field rest ih => simp [EverywhereInFields, ih]

end Expr

namespace Parser

/-- A name that a parenthesis behind it makes a call of. -/
def isCallee : Token → Bool
  | .word name => !(reserved ++ ["and", "or", "in"]).contains name
  | _ => false

theorem Prefix.isCallee_eq {token : Token} {op : UnaryOp} (h : Prefix token op) :
    isCallee token = false := by
  cases h <;> rfl

/-- The right operand of an operator stands behind a token that is no name. -/
theorem operator?_isCallee {tokens rest : List Located} {op : BinaryOp}
    (h : operator? tokens = some (op, rest)) :
    ∃ found, found :: rest <:+ tokens ∧ isCallee found.token = false := by
  cases operator?_eq_some h with
  | notIn => exact ⟨_, List.suffix_cons _ _, rfl⟩
  | sign | and | or | isIn => exact ⟨_, List.suffix_rfl, rfl⟩

section Relations

variable {R : Nat → List Located → Expr → List Located → Prop} {P : List Located → Prop} {Q : Token → Prop}
  {G : Expr → Prop}

/-- Wherever an expression can start behind one of these tokens, what it starts with has the property. -/
def Behind (P : List Located → Prop) (tokens : List Located) : Prop :=
  ∀ found rest, found :: rest <:+ tokens → isCallee found.token = false → P rest

theorem Behind.suffix {tokens rest : List Located} (h : Behind P tokens) (hsuffix : rest <:+ tokens) :
    Behind P rest :=
  fun found rest hrest => h found rest (hrest.trans hsuffix)

theorem Behind.head {found : Located} {tokens : List Located} (h : Behind P (found :: tokens))
    (hfound : isCallee found.token = false) : P tokens :=
  h found tokens List.suffix_rfl hfound

theorem Behind.tail {found : Located} {tokens : List Located} (h : Behind P (found :: tokens)) :
    Behind P tokens :=
  h.suffix (List.suffix_cons found tokens)

theorem Spans.behind {lexemes : List Lexeme} {tokens rest : List Located} (h : Spans lexemes tokens rest)
    (hP : Behind P tokens) : Behind P rest :=
  hP.suffix h.suffix

/-- All tokens have the property. -/
def AllTokens (Q : Token → Prop) (tokens : List Located) : Prop := ∀ found ∈ tokens, Q found.token

theorem AllTokens.head {found : Located} {tokens : List Located} (h : AllTokens Q (found :: tokens)) :
    Q found.token :=
  (List.forall_mem_cons.mp h).1

theorem AllTokens.tail {found : Located} {tokens : List Located} (h : AllTokens Q (found :: tokens)) :
    AllTokens Q tokens :=
  (List.forall_mem_cons.mp h).2

theorem AllTokens.behind {tokens : List Located} (h : AllTokens Q tokens) : Behind (AllTokens Q) tokens :=
  fun _ _ hsuffix _ _ hmem => h _ (hsuffix.subset (List.mem_cons_of_mem _ hmem))

/-- The tokens that are left are among those that were given. -/
theorem Spans.allTokens {lexemes : List Lexeme} {tokens rest : List Located}
    (h : Spans lexemes tokens rest) (hQ : AllTokens Q tokens) : AllTokens Q rest :=
  fun found hfound => hQ found (h.suffix.subset hfound)

/-- What is read from tokens with the one property has the other. -/
def Yields (R : Nat → List Located → Expr → List Located → Prop) (P : List Located → Prop)
    (G : Expr → Prop) : Prop :=
  ∀ {level : Nat} {tokens : List Located} {expr : Expr} {rest : List Located},
    R level tokens expr rest → P tokens → G expr

theorem Items.forall (hspans : Faithful R) (hG : Yields R P G) {close : Token}
    {tokens rest : List Located} {items : List Expr} (h : Items R close tokens items rest)
    (hP : P tokens) (hbehind : Behind P tokens) : ∀ item ∈ items, G item := by
  induction h with
  | last hitem => exact List.forall_mem_singleton.mpr (hG hitem hP)
  | more hitem _ ih =>
      have hcomma := (hspans hitem).behind hbehind
      exact List.forall_mem_cons.mpr ⟨hG hitem hP, ih (hcomma.head rfl) hcomma.tail⟩

theorem Listed.forall (hspans : Faithful R) (hG : Yields R P G) {close : Token}
    {tokens rest : List Located} {items : List Expr} (h : Listed R close tokens items rest)
    (hP : P tokens) (hbehind : Behind P tokens) : ∀ item ∈ items, G item := by
  cases h with
  | empty => exact fun _ hitem => absurd hitem List.not_mem_nil
  | items hitems => exact hitems.forall hspans hG hP hbehind

theorem Fields.forall (hspans : Faithful R) (hG : Yields R P G) {tokens rest : List Located}
    {fields : List (String × Expr)} (h : Fields R tokens fields rest) (hbehind : Behind P tokens) :
    ∀ field ∈ fields, G field.2 := by
  induction h with
  | last _ hvalue => exact List.forall_mem_singleton.mpr (hG hvalue (hbehind.tail.head rfl))
  | more _ hvalue _ ih =>
      have hcomma := (hspans hvalue).behind hbehind.tail.tail
      exact List.forall_mem_cons.mpr ⟨hG hvalue (hbehind.tail.head rfl), ih hcomma.tail⟩

theorem Entries.forall (hspans : Faithful R) (hG : Yields R P G) {tokens rest : List Located}
    {fields : List (String × Expr)} (h : Entries R tokens fields rest) (hbehind : Behind P tokens) :
    ∀ field ∈ fields, G field.2 := by
  cases h with
  | empty => exact fun _ hfield => absurd hfield List.not_mem_nil
  | fields hfields => exact hfields.forall hspans hG hbehind

end Relations

end Parser

end DecisionGraph
