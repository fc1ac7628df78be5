import DecisionGraph.Expression.Parser

/-!
# The grammar that the parser reads by

For every reader of `Parser` there is a relation here that says which tokens it takes for which
expression. Like the readers, the relations take the one for subexpressions as an argument; only `Reads`
ties the knot, and it does so by the number of levels that may still be nested.

**What the parser accepts is in the grammar** (`reads_of_expression`). An invariant of everything that
is ever parsed is then an induction on the levels with one case for each form of the grammar, and no proof
about parsed expressions opens the parser again.

The grammar keeps what the parser knows when it stops: behind an expression that was read at a level
no step of a chain follows that binds at that level (`Reads.stops`).
-/

namespace DecisionGraph.Parser

/-! ## Tokens -/

/-- The words that are no identifiers at the start of an operand. -/
def reserved : List String := ["true", "false", "null", "not"]

/-- The literals and other operands that are a single token and no identifier. -/
inductive Leaf : Token → Expr → Prop
  | number (value : Double) : Leaf (.number value) (.literal (.number value))
  | text (value : String) : Leaf (.text value) (.literal (.text value))
  | yes : Leaf (.word "true") (.literal (.boolean true))
  | no : Leaf (.word "false") (.literal (.boolean false))
  | null : Leaf (.word "null") (.literal .null)
  | pointer : Leaf .hash .pointer

/-- The tokens of a unary operator. -/
inductive Prefix : Token → UnaryOp → Prop
  | minus : Prefix (.sign .minus) .negate
  | bang : Prefix (.sign .bang) .not
  | not : Prefix (.word "not") .not

/-- The tokens of a binary operator, and those behind them. -/
inductive Infix : List Located → BinaryOp → List Located → Prop
  | sign {written : Sign} {op : BinaryOp} {rest : List Located} {offset : Nat}
      (hop : signOperator? written = some op) : Infix (⟨.sign written, offset⟩ :: rest) op rest
  | and {rest : List Located} {offset : Nat} : Infix (⟨.word "and", offset⟩ :: rest) .and rest
  | or {rest : List Located} {offset : Nat} : Infix (⟨.word "or", offset⟩ :: rest) .or rest
  | isIn {rest : List Located} {offset : Nat} : Infix (⟨.word "in", offset⟩ :: rest) .isIn rest
  | notIn {rest : List Located} {o o' : Nat} :
      Infix (⟨.word "not", o⟩ :: ⟨.word "in", o'⟩ :: rest) .notIn rest

/-- The tokens that can stand for the key of an object field. -/
inductive Key : Token → String → Prop
  | word (name : String) : Key (.word name) name
  | text (name : String) : Key (.text name) name

/-- Whether a chain takes a step with these tokens at a place that asks for the level. -/
def goesOn (level : Nat) (tokens : List Located) : Bool :=
  match tokens with
  | ⟨.dot, _⟩ :: _ => true
  | ⟨.leftBracket, _⟩ :: _ => true
  | ⟨.question, _⟩ :: _ => level ≤ conditionalLevel
  | _ => (operator? tokens).any fun found => level ≤ leftLevel found.1

/-! ## The relations -/

section Relations

-- The relation for subexpressions: at a level, these tokens start with that expression and leave a rest.
variable (R : Nat → List Located → Expr → List Located → Prop)

/-- One expression or several with commas between them, and the closing token. -/
inductive Items (close : Token) : List Located → List Expr → List Located → Prop
  | last {tokens rest : List Located} {item : Expr} {offset : Nat}
      (hitem : R 0 tokens item (⟨close, offset⟩ :: rest)) : Items close tokens [item] rest
  | more {tokens middle rest : List Located} {item : Expr} {items : List Expr} {offset : Nat}
      (hitem : R 0 tokens item (⟨.comma, offset⟩ :: middle)) (hmore : Items close middle items rest) :
      Items close tokens (item :: items) rest

/-- A list that may be empty, and the closing token. -/
inductive Listed (close : Token) : List Located → List Expr → List Located → Prop
  | empty {rest : List Located} {offset : Nat} : Listed close (⟨close, offset⟩ :: rest) [] rest
  | items {tokens rest : List Located} {items : List Expr} (hitems : Items R close tokens items rest) :
      Listed close tokens items rest

/-- One field or several with commas between them, and the closing brace. -/
inductive Fields : List Located → List (String × Expr) → List Located → Prop
  | last {token : Token} {name : String} {tokens rest : List Located} {value : Expr} {o o' o'' : Nat}
      (hkey : Key token name) (hvalue : R 0 tokens value (⟨.rightBrace, o''⟩ :: rest)) :
      Fields (⟨token, o⟩ :: ⟨.colon, o'⟩ :: tokens) [(name, value)] rest
  | more {token : Token} {name : String} {tokens middle rest : List Located} {value : Expr}
      {fields : List (String × Expr)} {o o' o'' : Nat} (hkey : Key token name)
      (hvalue : R 0 tokens value (⟨.comma, o''⟩ :: middle)) (hmore : Fields middle fields rest) :
      Fields (⟨token, o⟩ :: ⟨.colon, o'⟩ :: tokens) ((name, value) :: fields) rest

/-- Fields, of which there may be none, and the closing brace. -/
inductive Entries : List Located → List (String × Expr) → List Located → Prop
  | empty {rest : List Located} {offset : Nat} : Entries (⟨.rightBrace, offset⟩ :: rest) [] rest
  | fields {tokens rest : List Located} {fields : List (String × Expr)}
      (hfields : Fields R tokens fields rest) : Entries tokens fields rest

/-- An operand: everything that no operator before it is needed for. -/
inductive Operand : List Located → Expr → List Located → Prop
  | leaf {token : Token} {expr : Expr} {rest : List Located} {offset : Nat} (hleaf : Leaf token expr) :
      Operand (⟨token, offset⟩ :: rest) expr rest
  | identifier {name : String} {rest : List Located} {offset : Nat} (hname : name ∉ reserved) :
      Operand (⟨.word name, offset⟩ :: rest) (.identifier name) rest
  | unary {token : Token} {op : UnaryOp} {tokens rest : List Located} {operand : Expr} {offset : Nat}
      (hop : Prefix token op) (hoperand : R unaryLevel tokens operand rest) :
      Operand (⟨token, offset⟩ :: tokens) (.unary op operand) rest
  | group {tokens rest : List Located} {expr : Expr} {o o' : Nat}
      (hinner : R 0 tokens expr (⟨.rightParen, o'⟩ :: rest)) :
      Operand (⟨.leftParen, o⟩ :: tokens) expr rest
  | array {tokens rest : List Located} {items : List Expr} {offset : Nat}
      (hitems : Listed R .rightBracket tokens items rest) :
      Operand (⟨.leftBracket, offset⟩ :: tokens) (.array items) rest
  | object {tokens rest : List Located} {fields : List (String × Expr)} {offset : Nat}
      (hfields : Entries R tokens fields rest) :
      Operand (⟨.leftBrace, offset⟩ :: tokens) (.object fields) rest
  | call {name : String} {tokens rest : List Located} {args : List Expr} {o o' : Nat}
      (hname : name ∉ reserved) (hargs : Listed R .rightParen tokens args rest) :
      Operand (⟨.word name, o⟩ :: ⟨.leftParen, o'⟩ :: tokens) (.call name args) rest

/-- One step of a chain behind its left part. -/
inductive Step (level : Nat) (left : Expr) : List Located → Expr → List Located → Prop
  | member {name : String} {rest : List Located} {o o' : Nat} :
      Step level left (⟨.dot, o⟩ :: ⟨.word name, o'⟩ :: rest) (.member left name) rest
  | index {tokens rest : List Located} {position : Expr} {o o' : Nat}
      (hposition : R 0 tokens position (⟨.rightBracket, o'⟩ :: rest)) :
      Step level left (⟨.leftBracket, o⟩ :: tokens) (.index left position) rest
  | conditional {tokens middle rest : List Located} {yes no : Expr} {o o' : Nat}
      (hlevel : level ≤ conditionalLevel) (hyes : R 0 tokens yes (⟨.colon, o'⟩ :: middle))
      (hno : R conditionalLevel middle no rest) :
      Step level left (⟨.question, o⟩ :: tokens) (.conditional left yes no) rest
  | binary {tokens middle rest : List Located} {op : BinaryOp} {right : Expr}
      (hop : operator? tokens = some (op, middle)) (hlevel : level ≤ leftLevel op)
      (hright : R (rightLevel op) middle right rest) :
      Step level left tokens (.binary op left right) rest

/-- The steps of a chain, as many as there are, but no more than `room`. -/
inductive Chain (level : Nat) : Nat → Expr → List Located → Expr → List Located → Prop
  | stop {room : Nat} {left : Expr} {rest : List Located} (hstop : goesOn level rest = false) :
      Chain level room left rest left rest
  | step {room : Nat} {left next expr : Expr} {tokens middle rest : List Located}
      (hstep : Step R level left tokens next middle) (hrest : Chain level room next middle expr rest) :
      Chain level (room + 1) left tokens expr rest

end Relations

/-- Expressions that bind at a level at least, with no more than so many levels nested. -/
def Reads : Nat → Nat → List Located → Expr → List Located → Prop
  | 0, _, _, _, _ => False
  | room + 1, level, tokens, expr, rest =>
    ∃ first middle, Operand (Reads room) tokens first middle ∧
      Chain (Reads room) level room first middle expr rest

/-! ## What the readers accept -/

section Readers

variable {sub : Nat → Parser Expr} {R : Nat → List Located → Expr → List Located → Prop}

theorem token_eq_ok {wanted : Token} {tokens rest : List Located} {u : Unit}
    (h : token wanted tokens = .ok (u, rest)) : ∃ offset, tokens = ⟨wanted, offset⟩ :: rest := by
  cases tokens with
  | nil => cases h
  | cons found more =>
      rw [token] at h
      split at h
      · rename_i heq
        cases h
        exact ⟨found.offset, by rw [← heq]⟩
      · cases h

theorem operator?_eq_some {tokens rest : List Located} {op : BinaryOp}
    (h : operator? tokens = some (op, rest)) : Infix tokens op rest := by
  cases tokens with
  | nil => cases h
  | cons found more =>
      obtain ⟨found, offset⟩ := found
      cases found with
      | sign written =>
          obtain ⟨op', hop, heq⟩ := Option.map_eq_some_iff.mp h
          cases heq
          exact .sign hop
      | word name =>
          unfold operator? at h
          dsimp only at h
          split at h
          · rename_i heq
            subst heq
            cases h
            exact .and
          split at h
          · rename_i heq
            subst heq
            cases h
            exact .or
          split at h
          · rename_i heq
            subst heq
            cases h
            exact .isIn
          split at h
          · -- only the second word makes it an operator
            rename_i heq
            subst heq
            split at h
            · split at h
              · rename_i heq
                subst heq
                cases h
                exact .notIn
              · cases h
            · cases h
          · cases h
      | _ => cases h

theorem key_eq_ok {tokens rest : List Located} {name : String} (h : key tokens = .ok (name, rest)) :
    ∃ token offset, tokens = ⟨token, offset⟩ :: rest ∧ Key token name := by
  cases tokens with
  | nil => cases h
  | cons found more =>
      obtain ⟨found, offset⟩ := found
      cases found <;> cases h
      · exact ⟨_, _, rfl, .text name⟩
      · exact ⟨_, _, rfl, .word name⟩

/-- A pair of readers one after the other, both of which succeed. -/
theorem bind_eq_ok {α β : Type} {x : Except ExprError α} {f : α → Except ExprError β} {b : β} :
    x >>= f = .ok b ↔ ∃ a, x = .ok a ∧ f a = .ok b := by
  cases x with
  | error e => exact iff_of_false nofun nofun
  | ok a => exact ⟨fun h => ⟨a, rfl, h⟩, fun ⟨_, ha, h⟩ => (Except.ok.inj ha) ▸ h⟩

theorem map_eq_ok {α β : Type} {x : Except ExprError α} {f : α → β} {b : β} :
    x.map f = .ok b ↔ ∃ a, x = .ok a ∧ f a = b := by
  cases x with
  | error e => exact iff_of_false nofun nofun
  | ok a => exact ⟨fun h => ⟨a, rfl, Except.ok.inj h⟩, fun ⟨_, ha, h⟩ => (Except.ok.inj ha) ▸ congrArg _ h⟩

/-- Subexpressions are read as the relation says. -/
def Accepts (sub : Nat → Parser Expr) (R : Nat → List Located → Expr → List Located → Prop) : Prop :=
  ∀ {level : Nat} {tokens : List Located} {expr : Expr} {rest : List Located},
    sub level tokens = .ok (expr, rest) → R level tokens expr rest

theorem Accepts.items (hsub : Accepts sub R) {close : Token} {room : Nat} {tokens rest : List Located}
    {found : List Expr} (h : items sub close room tokens = .ok (found, rest)) :
    Items R close tokens found rest := by
  induction room generalizing tokens found with
  | zero => cases h
  | succ room ih =>
      rw [Parser.items] at h
      split at h
      · cases h
      · cases h
      · rename_i item next more hitem
        obtain ⟨next, offset⟩ := next
        split at h
        · -- a comma, and the rest of the list behind it
          rename_i hcomma
          obtain ⟨⟨others, behind⟩, hothers, heq⟩ := map_eq_ok.mp h
          cases heq
          obtain rfl : next = .comma := hcomma
          exact .more (hsub hitem) (ih hothers)
        · split at h
          · rename_i hclose
            obtain rfl : next = close := hclose
            cases h
            exact .last (hsub hitem)
          · cases h

theorem Accepts.list (hsub : Accepts sub R) {close : Token} {tokens rest : List Located}
    {found : List Expr} (h : list sub close tokens = .ok (found, rest)) :
    Listed R close tokens found rest := by
  unfold Parser.list at h
  split at h
  · exact .items (hsub.items h)
  · rename_i next more
    obtain ⟨next, offset⟩ := next
    split at h
    · rename_i hclose
      obtain rfl : next = close := hclose
      cases h
      exact .empty
    · exact .items (hsub.items h)

theorem Accepts.field (hsub : Accepts sub R) {tokens rest : List Located} {name : String} {value : Expr}
    (h : field sub tokens = .ok ((name, value), rest)) :
    ∃ token o o' middle, tokens = ⟨token, o⟩ :: ⟨.colon, o'⟩ :: middle ∧ Key token name ∧
      R 0 middle value rest := by
  obtain ⟨⟨name', behindKey⟩, hname, h⟩ := bind_eq_ok.mp h
  obtain ⟨⟨_, behindColon⟩, hcolon, h⟩ := bind_eq_ok.mp h
  obtain ⟨⟨value', behindValue⟩, hvalue, h⟩ := bind_eq_ok.mp h
  cases h
  obtain ⟨token, o, rfl, hkey⟩ := key_eq_ok hname
  obtain ⟨o', rfl⟩ := token_eq_ok hcolon
  exact ⟨token, o, o', behindColon, rfl, hkey, hsub hvalue⟩

theorem Accepts.fields (hsub : Accepts sub R) {room : Nat} {tokens rest : List Located}
    {found : List (String × Expr)} (h : fields sub room tokens = .ok (found, rest)) :
    Fields R tokens found rest := by
  induction room generalizing tokens found with
  | zero => cases h
  | succ room ih =>
      rw [Parser.fields] at h
      split at h
      · cases h
      · cases h
      · rename_i entry next more hentry
        obtain ⟨token, o, o', middle, rfl, hkey, hvalue⟩ := hsub.field hentry
        obtain ⟨next, offset⟩ := next
        split at h
        · rename_i hcomma
          obtain ⟨⟨others, behind⟩, hothers, heq⟩ := map_eq_ok.mp h
          cases heq
          obtain rfl : next = .comma := hcomma
          exact .more hkey hvalue (ih hothers)
        · split at h
          · rename_i hclose
            obtain rfl : next = .rightBrace := hclose
            cases h
            exact .last hkey hvalue
          · cases h

theorem Accepts.object (hsub : Accepts sub R) {tokens rest : List Located} {expr : Expr}
    (h : object sub tokens = .ok (expr, rest)) :
    ∃ fields, expr = .object fields ∧ Entries R tokens fields rest := by
  cases tokens with
  | nil => cases h
  | cons found more =>
      obtain ⟨found, offset⟩ := found
      rw [Parser.object] at h
      split at h
      · rename_i hclose
        obtain rfl : found = .rightBrace := hclose
        cases h
        exact ⟨[], rfl, .empty⟩
      · obtain ⟨⟨fields, behind⟩, hfields, heq⟩ := map_eq_ok.mp h
        cases heq
        exact ⟨fields, rfl, .fields (hsub.fields hfields)⟩

theorem Accepts.unary (hsub : Accepts sub R) {op : UnaryOp} {token : Token} {offset : Nat}
    (hop : Prefix token op) {tokens rest : List Located} {expr : Expr}
    (h : unary sub op tokens = .ok (expr, rest)) : Operand R (⟨token, offset⟩ :: tokens) expr rest := by
  obtain ⟨⟨operand, behind⟩, hoperand, heq⟩ := map_eq_ok.mp h
  cases heq
  exact .unary hop (hsub hoperand)

theorem Accepts.word (hsub : Accepts sub R) {name : String} {offset : Nat} {tokens rest : List Located}
    {expr : Expr} (h : word sub name tokens = .ok (expr, rest)) :
    Operand R (⟨.word name, offset⟩ :: tokens) expr rest := by
  unfold Parser.word at h
  split at h
  · rename_i heq
    subst heq
    cases h
    exact .leaf .yes
  split at h
  · rename_i heq
    subst heq
    cases h
    exact .leaf .no
  split at h
  · rename_i heq
    subst heq
    cases h
    exact .leaf .null
  split at h
  · rename_i heq
    subst heq
    exact hsub.unary .not h
  · have hname : name ∉ reserved := by simp [reserved, *]
    split at h
    · obtain ⟨⟨args, behind⟩, hargs, heq⟩ := map_eq_ok.mp h
      cases heq
      exact .call hname (hsub.list hargs)
    · cases h
      exact .identifier hname

theorem Accepts.operand (hsub : Accepts sub R) {tokens rest : List Located} {expr : Expr}
    (h : operand sub tokens = .ok (expr, rest)) : Operand R tokens expr rest := by
  cases tokens with
  | nil => cases h
  | cons found more =>
      obtain ⟨found, offset⟩ := found
      cases found with
      | number value =>
          cases h
          exact .leaf (.number value)
      | text value =>
          cases h
          exact .leaf (.text value)
      | hash =>
          cases h
          exact .leaf .pointer
      | word name => exact hsub.word h
      | sign written =>
          cases written with
          | minus => exact hsub.unary .minus h
          | bang => exact hsub.unary .bang h
          | _ => cases h
      | leftParen =>
          obtain ⟨⟨inner, behind⟩, hinner, h⟩ := bind_eq_ok.mp h
          obtain ⟨⟨_, behind'⟩, hclose, h⟩ := bind_eq_ok.mp h
          cases h
          obtain ⟨offset', rfl⟩ := token_eq_ok hclose
          exact .group (hsub hinner)
      | leftBracket =>
          obtain ⟨⟨items, behind⟩, hitems, heq⟩ := map_eq_ok.mp h
          cases heq
          exact .array (hsub.list hitems)
      | leftBrace =>
          obtain ⟨fields, rfl, hfields⟩ := hsub.object h
          exact .object hfields
      | _ => cases h

/-! ## What a chain takes -/

variable (sub) in
/-- Whether a chain goes on does not depend on what has been read. -/
theorem step?_isSome (level : Nat) (left : Expr) (tokens : List Located) :
    (step? sub level left tokens).isSome = goesOn level tokens := by
  unfold step?
  split
  · rfl
  · rfl
  · by_cases hlevel : conditionalLevel < level
    · simp [goesOn, hlevel]
    · simp [goesOn, hlevel, Nat.not_lt.mp hlevel]
  · rename_i hdot hbracket hquestion
    rw [goesOn.eq_4 _ _ hdot hbracket hquestion]
    cases hop : operator? tokens with
    | none => rfl
    | some found =>
        obtain ⟨op, behind⟩ := found
        by_cases hlevel : leftLevel op < level
        · simp [hlevel]
        · simp [hlevel, Nat.not_lt.mp hlevel]

theorem step?_eq_none_iff {level : Nat} {left : Expr} {tokens : List Located} :
    step? sub level left tokens = none ↔ goesOn level tokens = false := by
  rw [← step?_isSome sub level left tokens, Option.isSome_eq_false_iff, Option.isNone_iff_eq_none]

theorem Accepts.step (hsub : Accepts sub R) {level : Nat} {left next : Expr}
    {tokens rest : List Located} (h : step? sub level left tokens = some (.ok (next, rest))) :
    Step R level left tokens next rest := by
  unfold step? at h
  split at h
  · -- a dot, and the name behind it
    rename_i offset more
    cases more with
    | nil => cases h
    | cons found more =>
        obtain ⟨found, offset'⟩ := found
        cases found with
        | word name =>
            cases h
            exact .member
        | _ => cases h
  · obtain ⟨⟨position, behind⟩, hposition, h⟩ := bind_eq_ok.mp (Option.some.inj h)
    obtain ⟨⟨_, behind'⟩, hclose, h⟩ := bind_eq_ok.mp h
    cases h
    obtain ⟨offset', rfl⟩ := token_eq_ok hclose
    exact .index (hsub hposition)
  · split at h
    · cases h
    · rename_i hlevel
      obtain ⟨⟨yes, behind⟩, hyes, h⟩ := bind_eq_ok.mp (Option.some.inj h)
      obtain ⟨⟨_, behind'⟩, hcolon, h⟩ := bind_eq_ok.mp h
      obtain ⟨⟨no, behind''⟩, hno, h⟩ := bind_eq_ok.mp h
      cases h
      obtain ⟨offset', rfl⟩ := token_eq_ok hcolon
      exact .conditional (Nat.not_lt.mp hlevel) (hsub hyes) (hsub hno)
  · split at h
    · cases h
    · rename_i op behind hop
      split at h
      · cases h
      · rename_i hlevel
        obtain ⟨⟨right, behind'⟩, hright, heq⟩ := map_eq_ok.mp (Option.some.inj h)
        cases heq
        exact .binary hop (Nat.not_lt.mp hlevel) (hsub hright)

theorem Accepts.chain (hsub : Accepts sub R) {level room : Nat} {left expr : Expr}
    {tokens rest : List Located} (h : chain sub level room left tokens = .ok (expr, rest)) :
    Chain R level room left tokens expr rest := by
  induction room generalizing left tokens with
  | zero =>
      rw [Parser.chain] at h
      split at h
      · rename_i hnone
        cases h
        exact .stop (step?_eq_none_iff.mp hnone)
      · cases h
      · cases h
  | succ room ih =>
      rw [Parser.chain] at h
      split at h
      · rename_i hnone
        cases h
        exact .stop (step?_eq_none_iff.mp hnone)
      · cases h
      · rename_i next middle hstep
        exact .step (hsub.step hstep) (ih h)

end Readers

/-- **What the parser accepts is in the grammar.** -/
theorem reads_of_expression {room level : Nat} {tokens rest : List Located} {expr : Expr}
    (h : expression room level tokens = .ok (expr, rest)) : Reads room level tokens expr rest := by
  induction room generalizing level tokens expr rest with
  | zero => cases h
  | succ room ih =>
      rw [expression] at h
      split at h
      · cases h
      · rename_i first middle hfirst
        have hsub : Accepts (expression room) (Reads room) := ih
        exact ⟨first, middle, hsub.operand hfirst, hsub.chain h⟩

/-- A whole text is an expression of the grammar with nothing behind it. -/
theorem reads_of_parse {source : String} {expr : Expr} (h : parse source = .ok expr) :
    ∃ tokens, Lexer.tokens source = .ok tokens ∧ Reads Expr.maxDepth 0 tokens expr [] := by
  obtain ⟨tokens, htokens, hwhole⟩ := bind_eq_ok.mp h
  rw [whole] at hwhole
  split at hwhole
  · cases hwhole
  · rename_i found hfound
    cases hwhole
    exact ⟨tokens, htokens, reads_of_expression hfound⟩
  · cases hwhole

theorem Chain.stops {R : Nat → List Located → Expr → List Located → Prop} {level room : Nat}
    {left expr : Expr} {tokens rest : List Located} (h : Chain R level room left tokens expr rest) :
    goesOn level rest = false := by
  induction h with
  | stop hstop => exact hstop
  | step _ _ ih => exact ih

/-- Behind an expression no step follows that binds at its level. -/
theorem Reads.stops {room level : Nat} {tokens rest : List Located} {expr : Expr}
    (h : Reads room level tokens expr rest) : goesOn level rest = false := by
  cases room with
  | zero => cases h
  | succ room =>
      obtain ⟨first, middle, _, hchain⟩ := h
      exact hchain.stops

end DecisionGraph.Parser
