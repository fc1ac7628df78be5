import DecisionGraph.Proofs.Expression.Grammar
import Mathlib.Data.List.Forall2

/-!
# The parser reads all tokens, in order

Parentheses only group, and an operator with two spellings means the same in both. What else an
expression is written with can be read off its tree from left to right (`Expr.lexemes`), and these are the
tokens it was read from: none is skipped, none is read twice and none is made up (`Reads.spans`).
-/

namespace DecisionGraph

/-- A token that a tree says must have been written. -/
inductive Lexeme
  | token (written : Token)
  /-- The key of an object field, which can be written with quotes or without. -/
  | key (name : String)

/-- The operators with a sign and a word are spelled with the word. -/
def Token.spelledOut : Token → Token
  | .sign .ampersands => .word "and"
  | .sign .bars => .word "or"
  | .sign .bang => .word "not"
  | token => token

def Token.isParen : Token → Bool
  | .leftParen | .rightParen => true
  | _ => false

/-- The token that was found is the one that the tree says. -/
def Lexeme.Matches : Lexeme → Token → Prop
  | .token written, found => found.spelledOut = written
  | .key name, found => found = .word name ∨ found = .text name

def Literal.token : Literal → Token
  | .number value => .number value
  | .text value => .text value
  | .boolean true => .word "true"
  | .boolean false => .word "false"
  | .null => .word "null"

def UnaryOp.token : UnaryOp → Token
  | .negate => .sign .minus
  | .not => .word "not"

/-- The tokens of an operator, spelled out. -/
def BinaryOp.tokens : BinaryOp → List Token
  | .add => [.sign .plus]
  | .subtract => [.sign .minus]
  | .multiply => [.sign .star]
  | .divide => [.sign .slash]
  | .modulo => [.sign .percent]
  | .power => [.sign .caret]
  | .equal => [.sign .equal]
  | .notEqual => [.sign .notEqual]
  | .less => [.sign .less]
  | .lessOrEqual => [.sign .lessOrEqual]
  | .greater => [.sign .greater]
  | .greaterOrEqual => [.sign .greaterOrEqual]
  | .isIn => [.word "in"]
  | .notIn => [.word "not", .word "in"]
  | .and => [.word "and"]
  | .or => [.word "or"]
  | .coalesce => [.sign .questions]

namespace Expr

mutual

/-- The tokens of an expression from left to right, parentheses left out. -/
def lexemes : Expr → List Lexeme
  | .literal value => [.token value.token]
  | .identifier name => [.token (.word name)]
  | .pointer => [.token .hash]
  | .member target name => lexemes target ++ [.token .dot, .token (.word name)]
  | .index target position =>
    lexemes target ++ .token .leftBracket :: lexemes position ++ [.token .rightBracket]
  | .array items => .token .leftBracket :: lexemesOfItems items ++ [.token .rightBracket]
  | .object fields => .token .leftBrace :: lexemesOfFields fields ++ [.token .rightBrace]
  | .unary op operand => .token op.token :: lexemes operand
  | .binary op left right => lexemes left ++ op.tokens.map .token ++ lexemes right
  | .conditional condition yes no =>
    lexemes condition ++ .token .question :: lexemes yes ++ .token .colon :: lexemes no
  | .call name args => .token (.word name) :: lexemesOfItems args

/-- The tokens of expressions with commas between them. -/
def lexemesOfItems : List Expr → List Lexeme
  | [] => []
  | [item] => lexemes item
  | item :: rest => lexemes item ++ .token .comma :: lexemesOfItems rest

/-- The tokens of fields with commas between them. -/
def lexemesOfFields : List (String × Expr) → List Lexeme
  | [] => []
  | [(key, value)] => .key key :: .token .colon :: lexemes value
  | (key, value) :: rest =>
    .key key :: .token .colon :: lexemes value ++ .token .comma :: lexemesOfFields rest

end

theorem lexemesOfItems_cons (item : Expr) {items : List Expr} (h : items ≠ []) :
    lexemesOfItems (item :: items) = lexemes item ++ .token .comma :: lexemesOfItems items := by
  cases items with
  | nil => exact absurd rfl h
  | cons next rest => rfl

theorem lexemesOfFields_cons (key : String) (value : Expr) {fields : List (String × Expr)}
    (h : fields ≠ []) :
    lexemesOfFields ((key, value) :: fields)
      = .key key :: .token .colon :: lexemes value ++ .token .comma :: lexemesOfFields fields := by
  cases fields with
  | nil => exact absurd rfl h
  | cons next rest => rfl

end Expr

namespace Parser

/-- The tokens down to a rest are these, parentheses left out. -/
inductive Spans : List Lexeme → List Located → List Located → Prop
  | nil {tokens : List Located} : Spans [] tokens tokens
  | token {lexeme : Lexeme} {lexemes : List Lexeme} {found : Located} {tokens rest : List Located}
      (hmatch : lexeme.Matches found.token) (hparen : found.token.isParen = false)
      (hspans : Spans lexemes tokens rest) : Spans (lexeme :: lexemes) (found :: tokens) rest
  | paren {lexemes : List Lexeme} {found : Located} {tokens rest : List Located}
      (hparen : found.token.isParen = true) (hspans : Spans lexemes tokens rest) :
      Spans lexemes (found :: tokens) rest

namespace Spans

variable {lexemes lexemes' : List Lexeme} {tokens middle rest : List Located}

theorem append (h : Spans lexemes tokens middle) (h' : Spans lexemes' middle rest) :
    Spans (lexemes ++ lexemes') tokens rest := by
  induction h with
  | nil => exact h'
  | token hmatch hparen _ ih => exact .token hmatch hparen (ih h')
  | paren hparen _ ih => exact .paren hparen (ih h')

/-- A token that has one spelling, and what is behind it. -/
theorem plain {written : Token} {offset : Nat} (hspelled : written.spelledOut = written)
    (hparen : written.isParen = false) (h : Spans lexemes tokens rest) :
    Spans (.token written :: lexemes) (⟨written, offset⟩ :: tokens) rest :=
  .token hspelled hparen h

/-- Closing parentheses at the end are left out. -/
theorem close {offset : Nat} (h : Spans lexemes tokens (⟨.rightParen, offset⟩ :: rest)) :
    Spans lexemes tokens rest := by
  have hclose : Spans [] (⟨.rightParen, offset⟩ :: rest) rest := .paren rfl .nil
  simpa using h.append hclose

/-- What is spanned, token by token. -/
theorem forall₂ (h : Spans lexemes tokens rest) :
    ∃ used, tokens = used ++ rest ∧
      List.Forall₂ Lexeme.Matches lexemes
        ((used.map Located.token).filter fun token => !token.isParen) := by
  induction h with
  | nil => exact ⟨[], rfl, .nil⟩
  | @token _ _ found _ _ hmatch hparen _ ih =>
      obtain ⟨used, rfl, hall⟩ := ih
      refine ⟨found :: used, rfl, ?_⟩
      rw [List.map_cons, List.filter_cons_of_pos (by simp [hparen])]
      exact .cons hmatch hall
  | @paren _ found _ _ hparen _ ih =>
      obtain ⟨used, rfl, hall⟩ := ih
      refine ⟨found :: used, rfl, ?_⟩
      rw [List.map_cons, List.filter_cons_of_neg (by simp [hparen])]
      exact hall

theorem suffix (h : Spans lexemes tokens rest) : rest <:+ tokens := by
  obtain ⟨used, rfl, _⟩ := h.forall₂
  exact List.suffix_append used rest

end Spans

/-! ## Tokens of the forms of the grammar -/

theorem Leaf.spans {token : Token} {expr : Expr} (h : Leaf token expr) {offset : Nat}
    {rest : List Located} : Spans expr.lexemes (⟨token, offset⟩ :: rest) rest := by
  cases h <;> exact .plain rfl rfl .nil

theorem Prefix.spans {token : Token} {op : UnaryOp} (h : Prefix token op) {offset : Nat}
    {lexemes : List Lexeme} {tokens rest : List Located} (hspans : Spans lexemes tokens rest) :
    Spans (.token op.token :: lexemes) (⟨token, offset⟩ :: tokens) rest := by
  cases h <;> exact .token rfl rfl hspans

theorem Key.spans {token : Token} {name : String} (h : Key token name) {o o' : Nat}
    {lexemes : List Lexeme} {tokens rest : List Located} (hspans : Spans lexemes tokens rest) :
    Spans (.key name :: .token .colon :: lexemes) (⟨token, o⟩ :: ⟨.colon, o'⟩ :: tokens) rest := by
  cases h with
  | word => exact .token (Or.inl rfl) rfl (.plain rfl rfl hspans)
  | text => exact .token (Or.inr rfl) rfl (.plain rfl rfl hspans)

theorem signOperator?_spelledOut {written : Sign} {op : BinaryOp}
    (h : signOperator? written = some op) : op.tokens = [(Token.sign written).spelledOut] := by
  cases written <;> cases h <;> rfl

/-- The tokens that an operator was recognised by. -/
theorem operator?_spans {tokens rest : List Located} {op : BinaryOp}
    (h : operator? tokens = some (op, rest)) : Spans (op.tokens.map .token) tokens rest := by
  cases operator?_eq_some h with
  | sign hop =>
      rw [signOperator?_spelledOut hop]
      exact .token rfl rfl .nil
  | notIn => exact .plain rfl rfl (.plain rfl rfl .nil)
  | and | or | isIn => exact .plain rfl rfl .nil

section Relations

variable {R : Nat → List Located → Expr → List Located → Prop}

/-- Subexpressions are written with the tokens that their trees say. -/
def Faithful (R : Nat → List Located → Expr → List Located → Prop) : Prop :=
  ∀ {level : Nat} {tokens : List Located} {expr : Expr} {rest : List Located},
    R level tokens expr rest → Spans expr.lexemes tokens rest

theorem Items.ne_nil {close : Token} {tokens rest : List Located} {items : List Expr}
    (h : Items R close tokens items rest) : items ≠ [] := by
  cases h <;> exact List.cons_ne_nil _ _

theorem Fields.ne_nil {tokens rest : List Located} {fields : List (String × Expr)}
    (h : Fields R tokens fields rest) : fields ≠ [] := by
  cases h <;> exact List.cons_ne_nil _ _

theorem Items.spans (hR : Faithful R) {close : Token} {tokens rest : List Located} {items : List Expr}
    (h : Items R close tokens items rest) :
    ∃ offset, Spans (Expr.lexemesOfItems items) tokens (⟨close, offset⟩ :: rest) := by
  induction h with
  | last hitem => exact ⟨_, hR hitem⟩
  | more hitem hmore ih =>
      obtain ⟨offset, hrest⟩ := ih
      rw [Expr.lexemesOfItems_cons _ hmore.ne_nil]
      exact ⟨offset, (hR hitem).append (.plain rfl rfl hrest)⟩

theorem Listed.spans (hR : Faithful R) {close : Token} {tokens rest : List Located} {items : List Expr}
    (h : Listed R close tokens items rest) :
    ∃ offset, Spans (Expr.lexemesOfItems items) tokens (⟨close, offset⟩ :: rest) := by
  cases h with
  | empty => exact ⟨_, .nil⟩
  | items hitems => exact hitems.spans hR

theorem Fields.spans (hR : Faithful R) {tokens rest : List Located} {fields : List (String × Expr)}
    (h : Fields R tokens fields rest) :
    ∃ offset, Spans (Expr.lexemesOfFields fields) tokens (⟨.rightBrace, offset⟩ :: rest) := by
  induction h with
  | last hkey hvalue => exact ⟨_, hkey.spans (hR hvalue)⟩
  | more hkey hvalue hmore ih =>
      obtain ⟨offset, hrest⟩ := ih
      rw [Expr.lexemesOfFields_cons _ _ hmore.ne_nil]
      exact ⟨offset, hkey.spans ((hR hvalue).append (.plain rfl rfl hrest))⟩

theorem Entries.spans (hR : Faithful R) {tokens rest : List Located} {fields : List (String × Expr)}
    (h : Entries R tokens fields rest) :
    ∃ offset, Spans (Expr.lexemesOfFields fields) tokens (⟨.rightBrace, offset⟩ :: rest) := by
  cases h with
  | empty => exact ⟨_, .nil⟩
  | fields hfields => exact hfields.spans hR

theorem Operand.spans (hR : Faithful R) {tokens rest : List Located} {expr : Expr}
    (h : Operand R tokens expr rest) : Spans expr.lexemes tokens rest := by
  cases h with
  | leaf hleaf => exact hleaf.spans
  | identifier => exact .plain rfl rfl .nil
  | unary hop hoperand => exact hop.spans (hR hoperand)
  | group hinner => exact .paren rfl (hR hinner).close
  | array hitems =>
      obtain ⟨offset, hspans⟩ := hitems.spans hR
      exact .plain rfl rfl (hspans.append (.plain rfl rfl .nil))
  | object hfields =>
      obtain ⟨offset, hspans⟩ := hfields.spans hR
      exact .plain rfl rfl (hspans.append (.plain rfl rfl .nil))
  | call _ hargs =>
      obtain ⟨offset, hspans⟩ := hargs.spans hR
      exact .plain rfl rfl (.paren rfl hspans.close)

/-- A step takes the tokens of the expression behind those of its left part. -/
theorem Step.spans (hR : Faithful R) {level : Nat} {left next : Expr} {tokens rest : List Located}
    (h : Step R level left tokens next rest) :
    ∃ more, next.lexemes = left.lexemes ++ more ∧ Spans more tokens rest := by
  cases h with
  | member => exact ⟨_, rfl, .plain rfl rfl (.plain rfl rfl .nil)⟩
  | index hposition =>
      refine ⟨_, by rw [Expr.lexemes, List.append_assoc, List.cons_append], ?_⟩
      exact .plain rfl rfl ((hR hposition).append (.plain rfl rfl .nil))
  | conditional _ hyes hno =>
      refine ⟨_, by rw [Expr.lexemes, List.append_assoc, List.cons_append], ?_⟩
      exact .plain rfl rfl ((hR hyes).append (.plain rfl rfl (hR hno)))
  | binary hop _ hright =>
      exact ⟨_, by rw [Expr.lexemes, List.append_assoc], (operator?_spans hop).append (hR hright)⟩

theorem Chain.spans (hR : Faithful R) {level room : Nat} {left expr : Expr} {tokens rest : List Located}
    (h : Chain R level room left tokens expr rest) :
    ∃ more, expr.lexemes = left.lexemes ++ more ∧ Spans more tokens rest := by
  induction h with
  | stop => exact ⟨[], (List.append_nil _).symm, .nil⟩
  | step hstep _ ih =>
      obtain ⟨first, hfirst, hspans⟩ := hstep.spans hR
      obtain ⟨more, hmore, hspans'⟩ := ih
      exact ⟨first ++ more, by rw [hmore, hfirst, List.append_assoc], hspans.append hspans'⟩

end Relations

/-- **Every token is read once and in its place.** -/
theorem Reads.spans {room level : Nat} {tokens rest : List Located} {expr : Expr}
    (h : Reads room level tokens expr rest) : Spans expr.lexemes tokens rest := by
  induction room generalizing level tokens expr rest with
  | zero => cases h
  | succ room ih =>
      obtain ⟨first, middle, hfirst, hchain⟩ := h
      have hR : Faithful (Reads room) := ih
      obtain ⟨more, hmore, hspans⟩ := hchain.spans hR
      rw [hmore]
      exact (hfirst.spans hR).append hspans

end Parser

end DecisionGraph
