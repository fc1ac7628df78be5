import DecisionGraph.Expression.Printer
import DecisionGraph.Proofs.Expression.Everywhere
import DecisionGraph.Proofs.Expression.Levels
import DecisionGraph.Proofs.Expression.Lexing

/-!
# The tokens of a printed expression

`Expr.written` gives the tokens that an expression is printed with, parentheses included. Provided that names
are words, the lexer finds such tokens in the printed text, though not always those of the expression itself
(`Expr.spells_print`): some characters of a text are printed by their code points, which the lexer does not
read, and infinity is printed as a word. `Expr.reread` is the expression that has the tokens that are found.

The parser only makes expressions with words for names (`Reads.named`); the rest has to be asked for
(`Expr.Printable`): keys are printed without quotes, and texts and numbers have to be printed as they are
read. Then the tokens are those of the expression (`Expr.tokens_print`).
-/

namespace DecisionGraph

namespace Expr

/-- What is printed of this node reads as what it stands for: keys are words, texts have no characters that
are printed by their code points, numbers are finite. -/
def Printable : Expr → Prop
  | .literal (.number value) => value.isFinite = true
  | .literal (.text value) => ∀ c ∈ value.toList, Text.IsLegible c
  | .object fields => ∀ field ∈ fields, Text.IsWord field.1
  | _ => True

/-- The names of this node can be written where they stand, and a number in it has no sign. -/
def Named : Expr → Prop
  | .literal (.number value) => value.negative = false
  | .identifier name => Text.IsWord name ∧ name ∉ Parser.reserved
  | .member _ name => Text.IsWord name
  | .call name _ => Text.IsWord name ∧ name ∉ Parser.reserved
  | _ => True

/-- The keys of this node can be written without quotes. -/
def Keyworded : Expr → Prop
  | .object fields => ∀ field ∈ fields, Text.IsWord field.1
  | _ => True

/-- What a printed literal is read as. -/
def rereadLiteral : Literal → Expr
  | .number value => if value.isFinite then .literal (.number value) else .identifier "inf"
  | .text value => .literal (.text (Text.reread value))
  | value => .literal value

mutual

/-- The expression with every literal as it is read where it was printed. -/
def reread : Expr → Expr
  | .literal value => rereadLiteral value
  | .identifier name => .identifier name
  | .pointer => .pointer
  | .member target name => .member (reread target) name
  | .index target position => .index (reread target) (reread position)
  | .array items => .array (rereadItems items)
  | .object fields => .object (rereadFields fields)
  | .unary op operand => .unary op (reread operand)
  | .binary op left right => .binary op (reread left) (reread right)
  | .conditional condition yes no => .conditional (reread condition) (reread yes) (reread no)
  | .call name args => .call name (rereadItems args)

def rereadItems : List Expr → List Expr
  | [] => []
  | item :: rest => reread item :: rereadItems rest

def rereadFields : List (String × Expr) → List (String × Expr)
  | [] => []
  | (key, value) :: rest => (key, reread value) :: rereadFields rest

end

/-- Puts parentheses around tokens, if they need them. -/
def enclosed (needed : Bool) (tokens : List Token) : List Token :=
  if needed then .leftParen :: tokens ++ [.rightParen] else tokens

mutual

/-- The tokens that an expression is printed with. -/
def written : Expr → List Token
  | .literal value => [value.token]
  | .identifier name => [.word name]
  | .pointer => [.hash]
  | .member target name => enclosed (target.precedence < 11) (written target) ++ [.dot, .word name]
  | .index target position =>
    enclosed (target.precedence < 11) (written target)
      ++ .leftBracket :: written position ++ [.rightBracket]
  | .array items => .leftBracket :: writtenItems items ++ [.rightBracket]
  | .object fields => .leftBrace :: writtenFields fields ++ [.rightBrace]
  | .unary op operand => op.token :: enclosed (operand.precedence < 10) (written operand)
  | .binary op left right =>
    enclosed (left.precedence < op.leftPrecedence) (written left) ++ op.tokens
      ++ enclosed (right.precedence < op.rightPrecedence) (written right)
  | .conditional condition yes no =>
    enclosed (condition.precedence < 2) (written condition)
      ++ .question :: written yes ++ .colon :: written no
  | .call name args => .word name :: .leftParen :: writtenItems args ++ [.rightParen]

/-- The tokens of expressions with commas between them. -/
def writtenItems : List Expr → List Token
  | [] => []
  | [item] => written item
  | item :: rest => written item ++ .comma :: writtenItems rest

/-- The tokens of fields with commas between them. -/
def writtenFields : List (String × Expr) → List Token
  | [] => []
  | [(key, value)] => .word key :: .colon :: written value
  | (key, value) :: rest => .word key :: .colon :: written value ++ .comma :: writtenFields rest

end

/-- What a literal is read as binds as tightly. -/
@[simp] theorem precedence_reread (expr : Expr) : expr.reread.precedence = expr.precedence := by
  cases expr with
  | literal value =>
      cases value with
      | number value =>
          rw [reread, rereadLiteral]
          split <;> rfl
      | _ => rfl
  | _ => rfl

theorem precedence_pos (expr : Expr) : 1 ≤ expr.precedence := by
  cases expr with
  | binary op _ _ => exact Nat.le_of_succ_le op.two_le_precedence
  | _ => simp [precedence]

/-- Only the parentheses depend on the place. -/
theorem printAt_eq (least : Nat) (expr : Expr) :
    expr.printAt least = enclose (expr.precedence < least) (expr.printAt 0) := by
  cases expr with
  | unary op operand => cases op <;> rfl
  | _ => rfl

end Expr

namespace Parser

section Relations

variable {R : Nat → List Located → Expr → List Located → Prop}

theorem Operand.named (hspans : Faithful R)
    (hR : Yields R (AllTokens Lexer.Proper) fun expr => expr.Everywhere Expr.Named)
    {tokens rest : List Located} {expr : Expr} (h : Operand R tokens expr rest)
    (htokens : AllTokens Lexer.Proper tokens) :
    expr.Everywhere Expr.Named := by
  cases h with
  | leaf hleaf =>
      have hfirst := htokens.head
      cases hleaf <;> first | exact hfirst | exact trivial
  | identifier hname => exact ⟨htokens.head, hname⟩
  | unary _ hoperand => exact ⟨trivial, hR hoperand htokens.tail⟩
  | group hinner => exact hR hinner htokens.tail
  | array hitems =>
      have hparts := hitems.forall hspans hR htokens.tail htokens.tail.behind
      exact ⟨trivial, Expr.everywhereInItems_iff.mpr hparts⟩
  | object hfields =>
      have hparts := hfields.forall hspans hR htokens.tail.behind
      exact ⟨trivial, Expr.everywhereInFields_iff.mpr hparts⟩
  | call hname hargs =>
      have hparts := hargs.forall hspans hR htokens.tail.tail htokens.tail.tail.behind
      exact ⟨⟨htokens.head, hname⟩, Expr.everywhereInItems_iff.mpr hparts⟩

theorem Step.named (hspans : Faithful R)
    (hR : Yields R (AllTokens Lexer.Proper) fun expr => expr.Everywhere Expr.Named) {level : Nat}
    {left next : Expr} {tokens rest : List Located} (h : Step R level left tokens next rest)
    (htokens : AllTokens Lexer.Proper tokens) (hleft : left.Everywhere Expr.Named) :
    next.Everywhere Expr.Named := by
  cases h with
  | member => exact ⟨htokens.tail.head, hleft⟩
  | index hposition => exact ⟨trivial, hleft, hR hposition htokens.tail⟩
  | conditional _ hyes hno =>
      have hbranch := ((hspans hyes).allTokens htokens.tail).tail
      exact ⟨trivial, hleft, hR hyes htokens.tail, hR hno hbranch⟩
  | binary hop _ hright =>
      exact ⟨trivial, hleft, hR hright ((operator?_spans hop).allTokens htokens)⟩

theorem Chain.named (hspans : Faithful R)
    (hR : Yields R (AllTokens Lexer.Proper) fun expr => expr.Everywhere Expr.Named) {level room : Nat}
    {left expr : Expr} {tokens rest : List Located} (h : Chain R level room left tokens expr rest)
    (htokens : AllTokens Lexer.Proper tokens) (hleft : left.Everywhere Expr.Named) :
    expr.Everywhere Expr.Named := by
  induction h with
  | stop => exact hleft
  | step hstep _ ih =>
      obtain ⟨_, _, hstepped⟩ := hstep.spans hspans
      exact ih (hstepped.allTokens htokens) (hstep.named hspans hR htokens hleft)

end Relations

/-- The parser only makes expressions with words for names. -/
theorem Reads.named (room : Nat) :
    Yields (Reads room) (AllTokens Lexer.Proper) fun expr => expr.Everywhere Expr.Named := by
  induction room with
  | zero => exact fun h => h.elim
  | succ room ih =>
      intro level tokens expr rest h htokens
      obtain ⟨first, middle, hfirst, hchain⟩ := h
      have hbehind := (hfirst.spans Reads.spans).allTokens htokens
      exact hchain.named Reads.spans ih hbehind (hfirst.named Reads.spans ih htokens)

end Parser

namespace Expr

theorem named_of_parse {source : String} {expr : Expr} (h : parse source = .ok expr) :
    expr.Everywhere Named := by
  obtain ⟨tokens, htokens, hreads⟩ := Parser.reads_of_parse h
  exact hreads.named _ (Lexer.tokens_proper htokens)

open Lexer

/-! ## The tokens in the printed text -/

/-- Before a boundary the text splits into the tokens. -/
def Spells (text : String) (tokens : List Token) : Prop :=
  ∀ (rest : List Char) (more : List Token), Boundary rest → Lexes rest more →
    Lexes (text.toList ++ rest) (tokens ++ more)

/-- At the end of a text nothing can run into its last token. -/
theorem Spells.lexes {text : String} {tokens : List Token} (h : Spells text tokens) :
    Lexes text.toList tokens := by
  simpa using h [] [] trivial .nil

/-- Spaces, commas, colons and brackets end every token before them. -/
theorem boundary_cons {c : Char} (h : c ∈ [' ', ',', ':', '(', ')', '[', ']', '\x7d'])
    (rest : List Char) : Boundary (c :: rest) := by
  simp only [List.mem_cons, List.not_mem_nil, or_false] at h
  rcases h with rfl | rfl | rfl | rfl | rfl | rfl | rfl | rfl <;> exact ⟨by decide, nofun⟩

/-- A dot with a name behind it is no decimal point. -/
theorem boundary_dot {name : String} (h : Text.IsWord name) (rest : List Char) :
    Boundary ('.' :: (name.toList ++ rest)) := by
  obtain ⟨c, tail, hchars, hstart, _⟩ := h
  refine ⟨by decide, fun _ d hd => ?_⟩
  rw [hchars, List.cons_append, List.head?_cons, Option.mem_some_iff] at hd
  exact hd ▸ (Text.not_digit_not_quote_of_starts hstart).1

theorem spells_empty : Spells "" [] := fun _ _ _ hmore => hmore

theorem Spells.enclose {text : String} {tokens : List Token} (h : Spells text tokens)
    (needed : Bool) : Spells (Expr.enclose needed text) (enclosed needed tokens) := by
  cases needed with
  | false => exact h
  | true =>
      intro rest more _ hmore
      have hclose : Lexes (')' :: rest) (.rightParen :: more) := .mark rfl (by decide) hmore
      have hopen := Lexes.mark (c := '(') rfl (by decide) (h _ _ (boundary_cons (by decide) rest) hclose)
      simpa [Expr.enclose, enclosed] using hopen

theorem spells_word {name : String} (h : Text.IsWord name) : Spells name [.word name] :=
  fun _ _ hrest hmore => .word h hrest hmore

/-- A number is read as it is printed, unless it is infinite. -/
theorem spells_number {value : Double} (hsign : value.negative = false) :
    Spells value.positional (rereadLiteral (.number value)).written := by
  rw [rereadLiteral]
  split
  · rename_i hfinite
    intro rest more hrest hmore
    obtain ⟨whole, fraction, hne, hwhole, hfraction, hprint, hvalue⟩ :=
      Double.positional_numeral hsign hfinite
    have hnumber := Lexes.number hne hwhole hfraction hrest hmore
    rw [hvalue] at hnumber
    rw [hprint]
    exact hnumber
  · rename_i hinfinite
    have hprint : value.positional = "inf" := Double.positional_of_infinite hsign (by simpa using hinfinite)
    rw [hprint]
    exact spells_word (by decide)

/-- A literal is one token, if not always that of the literal. -/
theorem spells_literal {value : Literal} (hnamed : Named (.literal value)) :
    Spells value.print (rereadLiteral value).written := by
  cases value with
  | number value => exact spells_number hnamed
  | text value => exact fun _ _ _ hmore => .text value hmore
  | boolean value =>
      cases value with
      | false => exact spells_word (by decide)
      | true => exact spells_word (by decide)
  | null => exact spells_word (by decide)

/-- An operator between spaces is read as its tokens. -/
theorem lexes_operator (op : BinaryOp) {rest : List Char} {more : List Token} (hmore : Lexes rest more) :
    Lexes (' ' :: (op.symbol.toList ++ ' ' :: rest)) (op.tokens ++ more) := by
  have hspace : Boundary (' ' :: rest) := boundary_cons (by decide) rest
  refine .space ?_
  cases op with
  | isIn => exact .word (by decide) hspace hmore.space
  | and => exact .word (by decide) hspace hmore.space
  | or => exact .word (by decide) hspace hmore.space
  | notIn =>
      have hin : Lexes ("in".toList ++ ' ' :: rest) (.word "in" :: more) :=
        .word (by decide) hspace hmore.space
      have hnot : Lexes ("not".toList ++ ' ' :: ("in".toList ++ ' ' :: rest))
          (.word "not" :: .word "in" :: more) :=
        .word (by decide) (boundary_cons (by decide) _) hin.space
      exact hnot
  | equal => exact @Lexes.token '=' ['='] _ _ _ (by decide) (fun _ => rfl) hmore.space
  | notEqual => exact @Lexes.token '!' ['='] _ _ _ (by decide) (fun _ => rfl) hmore.space
  | lessOrEqual => exact @Lexes.token '<' ['='] _ _ _ (by decide) (fun _ => rfl) hmore.space
  | greaterOrEqual => exact @Lexes.token '>' ['='] _ _ _ (by decide) (fun _ => rfl) hmore.space
  | coalesce => exact @Lexes.token '?' ['?'] _ _ _ (by decide) (fun _ => rfl) hmore.space
  | _ => exact .single (by decide) (fun _ => rfl) hmore.space

/-- At a place that asks for a precedence. -/
theorem Spells.printAt {expr : Expr} {tokens : List Token} (h : Spells (expr.printAt 0) tokens)
    (least : Nat) : Spells (expr.printAt least) (enclosed (expr.precedence < least) tokens) := by
  rw [printAt_eq]
  exact h.enclose _

mutual

/-- **The lexer finds the tokens of the expression with its literals as they are read.** -/
theorem spells_print : ∀ expr : Expr, expr.Everywhere Named → expr.Everywhere Keyworded →
    Spells (expr.printAt 0) expr.reread.written
  | .literal _, hnamed, _ => spells_literal hnamed
  | .identifier _, hnamed, _ => spells_word hnamed.1
  | .pointer, _, _ => fun _ _ _ hmore => .mark rfl (by decide) hmore
  | .member target name, hnamed, hkeys => by
    intro rest more hrest hmore
    have htarget := spells_print target hnamed.2 hkeys.2
    have hname := Lexes.word hnamed.1 hrest hmore
    have hdot := Lexes.mark (c := '.') rfl (by decide) hname
    have hall := htarget.printAt 11 _ _ (boundary_dot hnamed.1 _) hdot
    simpa [printAt, enclose, written, reread] using hall
  | .index target position, hnamed, hkeys => by
    intro rest more _ hmore
    have htarget := spells_print target hnamed.2.1 hkeys.2.1
    have hposition := spells_print position hnamed.2.2 hkeys.2.2
    have hclose := Lexes.mark (c := ']') rfl (by decide) hmore
    have hinside := hposition _ _ (boundary_cons (by decide) _) hclose
    have hopen := Lexes.mark (c := '[') rfl (by decide) hinside
    have hall := htarget.printAt 11 _ _ (boundary_cons (by decide) _) hopen
    simpa [printAt, enclose, written, reread] using hall
  | .array items, hnamed, hkeys => by
    intro rest more _ hmore
    have hclose := Lexes.mark (c := ']') rfl (by decide) hmore
    have hinside := spells_printItems items hnamed.2 hkeys.2 _ _ (boundary_cons (by decide) _) hclose
    have hopen := Lexes.mark (c := '[') rfl (by decide) hinside
    simpa [printAt, enclose, written, reread] using hopen
  | .object fields, hnamed, hkeys => by
    intro rest more _ hmore
    have hclose := Lexes.mark (c := '\x7d') rfl (by decide) hmore
    have hinside := spells_printFields fields hkeys.1 hnamed.2 hkeys.2 _ _
      (boundary_cons (by decide) _) hclose
    have hopen := Lexes.mark (c := '\x7b') rfl (by decide) hinside
    simpa [printAt, enclose, written, reread] using hopen
  | .unary .negate operand, hnamed, hkeys => by
    intro rest more hrest hmore
    have hoperand := spells_print operand hnamed.2 hkeys.2
    have hall := (hoperand.printAt 10 _ _ hrest hmore).minus
    simpa [printAt, enclose, written, reread, UnaryOp.token] using hall
  | .unary .not operand, hnamed, hkeys => by
    intro rest more hrest hmore
    have hoperand := spells_print operand hnamed.2 hkeys.2
    have hspace := (hoperand.printAt 10 _ _ hrest hmore).space
    have hword : Text.IsWord "not" := by decide
    have hall := Lexes.word hword (boundary_cons (by decide) _) hspace
    simpa [printAt, enclose, written, reread, UnaryOp.token] using hall
  | .binary op left right, hnamed, hkeys => by
    intro rest more hrest hmore
    have hleft := spells_print left hnamed.2.1 hkeys.2.1
    have hright := spells_print right hnamed.2.2 hkeys.2.2
    have hop := lexes_operator op (hright.printAt op.rightPrecedence _ _ hrest hmore)
    have hall := hleft.printAt op.leftPrecedence _ _ (boundary_cons (by decide) _) hop
    simpa [printAt, enclose, written, reread] using hall
  | .conditional condition yes no, hnamed, hkeys => by
    intro rest more hrest hmore
    have hcondition := spells_print condition hnamed.2.1 hkeys.2.1
    have hyes := spells_print yes hnamed.2.2.1 hkeys.2.2.1
    have hno := spells_print no hnamed.2.2.2 hkeys.2.2.2
    have hcolon := (Lexes.mark (c := ':') rfl (by decide) (hno _ _ hrest hmore).space).space
    have hquestion := (hyes _ _ (boundary_cons (by decide) _) hcolon).question.space
    have hall := hcondition.printAt 2 _ _ (boundary_cons (by decide) _) hquestion
    -- nothing binds so loosely that it needs parentheses behind the colon
    have hprint : no.printAt 1 = no.printAt 0 := by
      rw [printAt_eq 1, decide_eq_false (Nat.not_lt.mpr no.precedence_pos)]
      rfl
    simpa [printAt, enclose, written, reread, hprint] using hall
  | .call name args, hnamed, hkeys => by
    intro rest more _ hmore
    have hclose := Lexes.mark (c := ')') rfl (by decide) hmore
    have hinside := spells_printItems args hnamed.2 hkeys.2 _ _ (boundary_cons (by decide) _) hclose
    have hopen := Lexes.mark (c := '(') rfl (by decide) hinside
    have hall := Lexes.word hnamed.1.1 (boundary_cons (by decide) _) hopen
    simpa [printAt, enclose, written, reread] using hall

theorem spells_printItems : ∀ items : List Expr, EverywhereInItems Named items →
    EverywhereInItems Keyworded items → Spells (printItems items) (writtenItems (rereadItems items))
  | [], _, _ => spells_empty
  | [item], hnamed, hkeys => spells_print item hnamed.1 hkeys.1
  | item :: next :: items, hnamed, hkeys => by
    intro rest more hrest hmore
    have hitem := spells_print item hnamed.1 hkeys.1
    have hbehind := spells_printItems (next :: items) hnamed.2 hkeys.2 _ _ hrest hmore
    have hcomma := Lexes.mark (c := ',') rfl (by decide) hbehind.space
    have hall := hitem _ _ (boundary_cons (by decide) _) hcomma
    simpa [printItems, writtenItems, rereadItems] using hall

theorem spells_printFields : ∀ fields : List (String × Expr),
    (∀ field ∈ fields, Text.IsWord field.1) → EverywhereInFields Named fields →
    EverywhereInFields Keyworded fields → Spells (printFields fields) (writtenFields (rereadFields fields))
  | [], _, _, _ => spells_empty
  | [(key, value)], hwords, hnamed, hkeys => by
    intro rest more hrest hmore
    have hvalue := spells_print value hnamed.1 hkeys.1 _ _ hrest hmore
    have hcolon := Lexes.mark (c := ':') rfl (by decide) hvalue.space
    have hall := Lexes.word (hwords _ (List.mem_cons_self ..)) (boundary_cons (by decide) _) hcolon
    simpa [printFields, writtenFields, rereadFields] using hall
  | (key, value) :: next :: fields, hwords, hnamed, hkeys => by
    intro rest more hrest hmore
    obtain ⟨hkey, hwords⟩ := List.forall_mem_cons.mp hwords
    have hvalue := spells_print value hnamed.1 hkeys.1
    have hbehind := spells_printFields (next :: fields) hwords hnamed.2 hkeys.2 _ _ hrest hmore
    have hcomma := Lexes.mark (c := ',') rfl (by decide) hbehind.space
    have hinside := hvalue _ _ (boundary_cons (by decide) _) hcomma
    have hcolon := Lexes.mark (c := ':') rfl (by decide) hinside.space
    have hall := Lexes.word hkey (boundary_cons (by decide) _) hcolon
    simpa [printFields, writtenFields, rereadFields] using hall

end

/-! ## Expressions that are read as they are printed -/

theorem Printable.keyworded {expr : Expr} (h : Printable expr) : Keyworded expr := by
  cases expr with
  | object fields => exact h
  | _ => trivial

theorem rereadLiteral_eq_iff {value : Literal} :
    rereadLiteral value = .literal value ↔ Printable (.literal value) := by
  cases value with
  | number value =>
      rw [rereadLiteral]
      split
      · rename_i hfinite
        exact iff_of_true rfl hfinite
      · rename_i hinfinite
        exact iff_of_false nofun hinfinite
  | text value =>
      rw [rereadLiteral, literal.injEq, Literal.text.injEq]
      exact Text.reread_eq_iff
  | boolean | null => exact iff_of_true rfl trivial

mutual

/-- **An expression whose keys are words is read as it is printed if its literals are.** -/
theorem reread_eq_iff : ∀ expr : Expr, expr.Everywhere Keyworded →
    (expr.reread = expr ↔ expr.Everywhere Printable)
  | .literal _, _ => rereadLiteral_eq_iff
  | .identifier _, _ => iff_of_true rfl trivial
  | .pointer, _ => iff_of_true rfl trivial
  | .member target _, hkeys => by
    simp [reread, Everywhere, Printable, reread_eq_iff target hkeys.2]
  | .index target position, hkeys => by
    simp [reread, Everywhere, Printable, reread_eq_iff target hkeys.2.1, reread_eq_iff position hkeys.2.2]
  | .array items, hkeys => by
    simp [reread, Everywhere, Printable, rereadItems_eq_iff items hkeys.2]
  | .object fields, hkeys => by
    have hwords : Printable (.object fields) := hkeys.1
    simp [reread, Everywhere, hwords, rereadFields_eq_iff fields hkeys.2]
  | .unary _ operand, hkeys => by
    simp [reread, Everywhere, Printable, reread_eq_iff operand hkeys.2]
  | .binary _ left right, hkeys => by
    simp [reread, Everywhere, Printable, reread_eq_iff left hkeys.2.1, reread_eq_iff right hkeys.2.2]
  | .conditional condition yes no, hkeys => by
    simp [reread, Everywhere, Printable, reread_eq_iff condition hkeys.2.1, reread_eq_iff yes hkeys.2.2.1,
      reread_eq_iff no hkeys.2.2.2]
  | .call _ args, hkeys => by
    simp [reread, Everywhere, Printable, rereadItems_eq_iff args hkeys.2]

theorem rereadItems_eq_iff : ∀ items : List Expr, EverywhereInItems Keyworded items →
    (rereadItems items = items ↔ EverywhereInItems Printable items)
  | [], _ => iff_of_true rfl trivial
  | item :: rest, hkeys => by
    simp [rereadItems, EverywhereInItems, reread_eq_iff item hkeys.1, rereadItems_eq_iff rest hkeys.2]

theorem rereadFields_eq_iff : ∀ fields : List (String × Expr), EverywhereInFields Keyworded fields →
    (rereadFields fields = fields ↔ EverywhereInFields Printable fields)
  | [], _ => iff_of_true rfl trivial
  | (_, value) :: rest, hkeys => by
    simp [rereadFields, EverywhereInFields, reread_eq_iff value hkeys.1, rereadFields_eq_iff rest hkeys.2]

end

/-- **The printed text has the tokens that the expression is written with,** with its literals as they are
read. -/
theorem tokens_print_reread {expr : Expr} (hnamed : expr.Everywhere Named)
    (hkeys : expr.Everywhere Keyworded) :
    ∃ found, Lexer.tokens expr.print = .ok found ∧ found.map Located.token = expr.reread.written :=
  (spells_print expr hnamed hkeys).lexes.tokens

theorem tokens_print {expr : Expr} (hnamed : expr.Everywhere Named)
    (hprintable : expr.Everywhere Printable) :
    ∃ found, Lexer.tokens expr.print = .ok found ∧ found.map Located.token = expr.written := by
  have hkeys : expr.Everywhere Keyworded := hprintable.imp fun _ => Printable.keyworded
  have htokens := tokens_print_reread hnamed hkeys
  rwa [(reread_eq_iff expr hkeys).mpr hprintable] at htokens

end Expr

end DecisionGraph
